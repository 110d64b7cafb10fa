import TemplateTree.Json.Reader
import TemplateTree.Proofs.Json.Numerals
import TemplateTree.Proofs.Json.Strings

/-!
# Tokens of written values

A value within the limits of documents is cut into the same tokens in every layout, which `tokens`
lists.
-/

set_option autoImplicit false

namespace TemplateTree.Json

/-- A value of texts, integers and switches that stays within the limits of documents where it
stands in so many lists and objects. -/
inductive Fits : Nat → Value → Prop where
  | null {depth : Nat} : Fits depth .null
  | bool {depth : Nat} (b : Bool) : Fits depth (.bool b)
  | int {depth : Nat} {i : Int} (digits : (Nat.toDigits 10 i.natAbs).length ≤ maxDigits) :
    Fits depth (.int i)
  | str {depth : Nat} (s : String) : Fits depth (.str (.chars s))
  | list {depth : Nat} {items : List Value} (room : depth < maxDepth)
    (within : ∀ item ∈ items, Fits (depth + 1) item) : Fits depth (.list items)
  | object {depth : Nat} {fields : Value.Fields} (room : depth < maxDepth)
    (keys : (fields.map Prod.fst).Nodup) (texts : ∀ field ∈ fields, ∃ s, field.1 = .chars s)
    (within : ∀ field ∈ fields, Fits (depth + 1) field.2) : Fits depth (.object fields)

mutual

/-- The tokens of a value, before `rest`. -/
def tokens : Value → List Token → List Token
  | .null, rest => .null :: rest
  | .bool b, rest => .bool b :: rest
  | .int i, rest => .int i :: rest
  | .real x, rest => .real x :: rest
  | .str s, rest => .str s :: rest
  | .list [], rest => .openList :: .closeList :: rest
  | .list (item :: items), rest =>
    .openList :: tokens item (itemTokens items (.closeList :: rest))
  | .object [], rest => .openObject :: .closeObject :: rest
  | .object ((key, value) :: fields), rest =>
    .openObject :: .str key :: .colon :: tokens value (fieldTokens fields (.closeObject :: rest))

def itemTokens : List Value → List Token → List Token
  | [], rest => rest
  | item :: items, rest => .comma :: tokens item (itemTokens items rest)

def fieldTokens : List (Str × Value) → List Token → List Token
  | [], rest => rest
  | (key, value) :: fields, rest =>
    .comma :: .str key :: .colon :: tokens value (fieldTokens fields rest)

end

namespace Token
variable {c : Char} {cs rest : List Char} {token : Token}

theorem ofChars_space (h : isSpace c) : ofChars (c :: cs) = ofChars cs := by
  rw [ofChars, if_pos h]

theorem ofChars_of_read (hc : isSpace c = false) (h : read (c :: cs) = some (token, rest)) :
    ofChars (c :: cs) = token :: ofChars rest := by
  rw [ofChars, hc]
  simp only [Bool.false_eq_true, if_false]
  split
  · rename_i hread
    simp [h] at hread
  · rename_i found after hfound hread
    have hsome : some (found, after) = some (token, rest) := by
      rw [← h, ← hfound]
    obtain ⟨rfl, rfl⟩ := Prod.mk.inj (Option.some.inj hsome)
    rfl

theorem isSpace_of_ofChar? (h : ofChar? c = some token) : isSpace c = false := by
  refine Bool.eq_false_iff.mpr fun hspace => ?_
  simp only [isSpace, Bool.or_eq_true, beq_iff_eq] at hspace
  rcases hspace with ((rfl | rfl) | rfl) | rfl <;> simp [ofChar?] at h

theorem ofChars_mark (h : ofChar? c = some token) : ofChars (c :: cs) = token :: ofChars cs := by
  refine ofChars_of_read (isSpace_of_ofChar? h) ?_
  rw [read, readMark, h]
  rfl

theorem ofChars_string (s : String) (cs : List Char) :
    ofChars (writeString (.chars s) cs) = .str (.chars s) :: ofChars cs := by
  refine ofChars_of_read rfl ?_
  rw [read, readQuoted, Str.points, readString_points, Option.map_some]
  dsimp only
  rw [ofPoints_toList]
  rfl

theorem ofChars_null (cs : List Char) :
    ofChars ('n' :: 'u' :: 'l' :: 'l' :: cs) = .null :: ofChars cs :=
  ofChars_of_read rfl rfl

theorem ofChars_true (cs : List Char) :
    ofChars ('t' :: 'r' :: 'u' :: 'e' :: cs) = .bool true :: ofChars cs :=
  ofChars_of_read rfl rfl

theorem ofChars_false (cs : List Char) :
    ofChars ('f' :: 'a' :: 'l' :: 's' :: 'e' :: cs) = .bool false :: ofChars cs :=
  ofChars_of_read rfl rfl

theorem beq_of_isDigit {d : Char} (hc : c.isDigit) (hd : d.isDigit = false) : (d == c) = false := by
  rw [beq_eq_false_iff_ne]
  rintro rfl
  rw [hd] at hc
  cases hc

theorem digit_beq {d : Char} (hc : c.isDigit) (hd : d.isDigit = false) : (c == d) = false :=
  Bool.beq_comm.trans (beq_of_isDigit hc hd)

theorem isSpace_of_isDigit (hc : c.isDigit) : isSpace c = false := by
  simp [isSpace, digit_beq hc (d := ' ') rfl, digit_beq hc (d := '\t') rfl,
    digit_beq hc (d := '\n') rfl, digit_beq hc (d := '\r') rfl]

/-- Where a digit stands, nothing but a number is read. -/
theorem read_of_isDigit (hc : c.isDigit) : read (c :: cs) = readNumber (c :: cs) := by
  have hmark : readMark (c :: cs) = none := by
    simp [readMark, ofChar?, digit_beq hc (d := '[') rfl, digit_beq hc (d := ']') rfl,
      digit_beq hc (d := '{') rfl, digit_beq hc (d := '}') rfl, digit_beq hc (d := ',') rfl,
      digit_beq hc (d := ':') rfl]
  have hquoted : readQuoted (c :: cs) = none := by
    rw [readQuoted]
    intro _ heq
    exact ne_of_beq_false (digit_beq hc rfl) (List.cons.inj heq).1
  have hword : readWord (c :: cs) = none := by
    simp [readWord, words, List.find?, List.isPrefixOf, beq_of_isDigit hc (d := 'n') rfl,
      beq_of_isDigit hc (d := 't') rfl, beq_of_isDigit hc (d := 'f') rfl,
      beq_of_isDigit hc (d := 'N') rfl, beq_of_isDigit hc (d := 'I') rfl,
      beq_of_isDigit hc (d := '-') rfl]
  rw [read, hmark, hquoted, hword]
  rfl

theorem read_of_minus (hc : c.isDigit) : read ('-' :: c :: cs) = readNumber ('-' :: c :: cs) := by
  have hword : readWord ('-' :: c :: cs) = none := by
    simp [readWord, words, List.find?, List.isPrefixOf, beq_of_isDigit hc (d := 'I') rfl]
  rw [read, hword]
  rfl

theorem ofChars_int {i : Int} (hi : (Nat.toDigits 10 i.natAbs).length ≤ maxDigits)
    (hrest : EndsNumeral rest) : ofChars (writeInt i ++ rest) = .int i :: ofChars rest := by
  have hread := readNumber_writeInt hi hrest
  cases i with
  | ofNat n =>
    obtain ⟨c, ds, hdigits, hc, -, -⟩ := Numeral.exists_toDigits n
    rw [writeInt, hdigits, List.cons_append] at hread ⊢
    exact ofChars_of_read (isSpace_of_isDigit hc) ((read_of_isDigit hc).trans hread)
  | negSucc n =>
    obtain ⟨c, ds, hdigits, hc, -, -⟩ := Numeral.exists_toDigits (n + 1)
    rw [writeInt, hdigits, List.cons_append, List.cons_append] at hread ⊢
    exact ofChars_of_read rfl ((read_of_minus hc).trans hread)

theorem ofChars_spaces {blanks : List Char} (h : ∀ c ∈ blanks, isSpace c) (cs : List Char) :
    ofChars (blanks ++ cs) = ofChars cs := by
  induction blanks with
  | nil => rfl
  | cons c blanks ih =>
    rw [List.cons_append, ofChars_space (h c List.mem_cons_self)]
    exact ih fun d hd => h d (List.mem_cons_of_mem c hd)

theorem ofChars_lineBreak (layout : Layout) (level : Nat) (cs : List Char) :
    ofChars (layout.lineBreak level ++ cs) = ofChars cs := by
  refine ofChars_spaces (fun c hc => ?_) cs
  cases layout with
  | oneLine => cases hc
  | indented width =>
    rcases List.mem_cons.mp hc with rfl | hc
    · rfl
    · rw [List.eq_of_mem_replicate hc]
      rfl

theorem ofChars_separator (layout : Layout) (level : Nat) (cs : List Char) :
    ofChars (layout.separator level ++ cs) = ofChars cs := by
  cases layout with
  | oneLine => exact ofChars_space rfl
  | indented width => exact ofChars_lineBreak (.indented width) level cs

end Token

section Write
variable {layout : Layout} {level : Nat} {rest : List Char} {items : List Value}
  {fields : Value.Fields} {v : Value} {depth : Nat}

theorem endsNumeral_nil : EndsNumeral [] := by simp [EndsNumeral]

theorem endsNumeral_cons {c : Char} (hc : c = ',' ∨ c = ']' ∨ c = '}' ∨ c = '\n')
    (rest : List Char) : EndsNumeral (c :: rest) := by
  intro d hd
  obtain rfl := Option.some.inj hd
  rcases hc with rfl | rfl | rfl | rfl <;> decide

theorem endsNumeral_close {c : Char} (hc : c = ']' ∨ c = '}') :
    EndsNumeral (layout.lineBreak level ++ c :: rest) := by
  cases layout with
  | oneLine => exact endsNumeral_cons (by grind) rest
  | indented width => exact endsNumeral_cons (by simp) _

theorem endsNumeral_writeItems (h : EndsNumeral rest) :
    EndsNumeral (writeItems layout level items rest) := by
  cases items with
  | nil => exact h
  | cons => exact endsNumeral_cons (by simp) _

theorem endsNumeral_writeFields (h : EndsNumeral rest) :
    EndsNumeral (writeFields layout level fields rest) := by
  cases fields with
  | nil => exact h
  | cons => exact endsNumeral_cons (by simp) _

/-- A value is cut into its tokens wherever no numeral goes on after it. -/
def CutsAs (layout : Layout) (v : Value) : Prop :=
  ∀ (level : Nat) (rest : List Char), EndsNumeral rest →
    Token.ofChars (write layout level v rest) = tokens v (Token.ofChars rest)

theorem ofChars_writeItems (h : ∀ item ∈ items, CutsAs layout item) (hrest : EndsNumeral rest) :
    Token.ofChars (writeItems layout level items rest) = itemTokens items (Token.ofChars rest) := by
  induction items with
  | nil => rfl
  | cons item items ih =>
    have hitems := ih fun i hi => h i (List.mem_cons_of_mem item hi)
    rw [writeItems, itemTokens, Token.ofChars_mark rfl, Token.ofChars_separator,
      h item List.mem_cons_self _ _ (endsNumeral_writeItems hrest), hitems]

theorem ofChars_writeFields (htexts : ∀ field ∈ fields, ∃ s, field.1 = .chars s)
    (h : ∀ field ∈ fields, CutsAs layout field.2) (hrest : EndsNumeral rest) :
    Token.ofChars (writeFields layout level fields rest) =
      fieldTokens fields (Token.ofChars rest) := by
  induction fields with
  | nil => rfl
  | cons field fields ih =>
    obtain ⟨key, value⟩ := field
    obtain ⟨s, rfl⟩ := htexts _ List.mem_cons_self
    have hfields := ih (fun f hf => htexts f (List.mem_cons_of_mem _ hf))
      fun f hf => h f (List.mem_cons_of_mem _ hf)
    have hvalue : CutsAs layout value := h _ List.mem_cons_self
    rw [writeFields, fieldTokens, Token.ofChars_mark rfl, Token.ofChars_separator,
      Token.ofChars_string, Token.ofChars_mark rfl, Token.ofChars_space rfl,
      hvalue _ _ (endsNumeral_writeFields hrest), hfields]

theorem Fits.cutsAs (h : Fits depth v) (layout : Layout) : CutsAs layout v := by
  induction h with
  | null => exact fun _ rest _ => Token.ofChars_null rest
  | bool b =>
    cases b with
    | true => exact fun _ rest _ => Token.ofChars_true rest
    | false => exact fun _ rest _ => Token.ofChars_false rest
  | int digits => exact fun _ _ hrest => Token.ofChars_int digits hrest
  | str s => exact fun _ rest _ => Token.ofChars_string s rest
  | @list _ items _ _ ih =>
    intro level rest hrest
    cases items with
    | nil => rw [write, tokens, Token.ofChars_mark rfl, Token.ofChars_mark rfl]
    | cons item items =>
      have hclose : EndsNumeral (layout.lineBreak level ++ ']' :: rest) :=
        endsNumeral_close (by simp)
      -- An integer ends where a comma, a line break or a bracket follows it.
      have hitem := ih item List.mem_cons_self
      have hitems : ∀ i ∈ items, CutsAs layout i := fun i hi => ih i (List.mem_cons_of_mem item hi)
      rw [write, tokens, Token.ofChars_mark rfl, Token.ofChars_lineBreak,
        hitem _ _ (endsNumeral_writeItems hclose), ofChars_writeItems hitems hclose,
        Token.ofChars_lineBreak, Token.ofChars_mark rfl]
  | @object _ fields _ _ texts _ ih =>
    intro level rest hrest
    cases fields with
    | nil => rw [write, tokens, Token.ofChars_mark rfl, Token.ofChars_mark rfl]
    | cons field fields =>
      obtain ⟨key, value⟩ := field
      obtain ⟨s, rfl⟩ := texts _ List.mem_cons_self
      have hclose : EndsNumeral (layout.lineBreak level ++ '}' :: rest) :=
        endsNumeral_close (by simp)
      have hvalue : CutsAs layout value := ih _ List.mem_cons_self
      have hfields : ∀ f ∈ fields, CutsAs layout f.2 := fun f hf => ih f (List.mem_cons_of_mem _ hf)
      have htexts : ∀ f ∈ fields, ∃ s, f.1 = .chars s := fun f hf =>
        texts f (List.mem_cons_of_mem _ hf)
      rw [write, tokens, Token.ofChars_mark rfl, Token.ofChars_lineBreak, Token.ofChars_string,
        Token.ofChars_mark rfl, Token.ofChars_space rfl,
        hvalue _ _ (endsNumeral_writeFields hclose), ofChars_writeFields htexts hfields hclose,
        Token.ofChars_lineBreak, Token.ofChars_mark rfl]

end Write

end TemplateTree.Json
