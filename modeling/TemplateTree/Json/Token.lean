import TemplateTree.Json.Limits
import TemplateTree.Json.Numeral
import TemplateTree.Str

/-!
# Tokens of JSON

A document is cut into brackets, commas, colons, words, numbers and strings; the blanks between them
are dropped. Where no token starts, one that is invalid ends the list.
-/

set_option autoImplicit false

namespace TemplateTree.Json

inductive Token where
  | openList
  | closeList
  | openObject
  | closeObject
  | comma
  | colon
  | null
  | bool (b : Bool)
  | int (i : Int)
  /-- An integer of so many digits, which are too many. -/
  | longInt (count : Nat)
  | real (x : Binary64)
  | str (s : Str)
  | invalid
  deriving DecidableEq, Repr

namespace Token

/-- The blanks of JSON. -/
def isSpace (c : Char) : Bool := c == ' ' || c == '\t' || c == '\n' || c == '\r'

/-- The tokens of one character. -/
def ofChar? (c : Char) : Option Token :=
  if c == '[' then some openList
  else if c == ']' then some closeList
  else if c == '{' then some openObject
  else if c == '}' then some closeObject
  else if c == ',' then some comma
  else if c == ':' then some colon
  else none

/-- The character after a backslash stands for another one. -/
def unescape? (c : Char) : Option Char :=
  if c == '"' || c == '\\' || c == '/' then some c
  else if c == 'n' then some '\n'
  else if c == 'r' then some '\r'
  else if c == 't' then some '\t'
  else if c == 'b' then some '\x08'
  else if c == 'f' then some '\x0c'
  else none

def isHighHalf (n : Nat) : Bool := 0xd800 ≤ n && n < 0xdc00

def isLowHalf (n : Nat) : Bool := 0xdc00 ≤ n && n < 0xe000

/-- The code point of an escape that is not joined to another one. -/
def ofUnit (n : Nat) : CodePoint :=
  if isHighHalf n || isLowHalf n then .half n else .char (Char.ofNat n)

/-- The character of two halves of a surrogate pair. -/
def joinHalves (high low : Nat) : Char :=
  Char.ofNat (0x10000 + (high - 0xd800) * 0x400 + (low - 0xdc00))

/-- The low half that a text starts with an escape of, and what follows it. -/
def lowHalf? : List Char → Option (Nat × List Char)
  | '\\' :: 'u' :: a :: b :: c :: d :: rest =>
    match Text.hexQuad? a b c d with
    | some n => if isLowHalf n then some (n, rest) else none
    | none => none
  | _ => none

theorem length_lowHalf?_lt {cs rest : List Char} {n : Nat} (h : lowHalf? cs = some (n, rest)) :
    rest.length < cs.length := by
  unfold lowHalf? at h
  split at h
  · split at h
    · split at h
      · simp at h
        simp only [← h.2, List.length_cons]
        omega
      · simp at h
    · simp at h
  · simp at h

/-- The code points of a string up to its closing quote, and what follows the quote. -/
def readString (cs : List Char) : Option (List CodePoint × List Char) :=
  match cs with
  | [] => none
  | '"' :: rest => some ([], rest)
  | '\\' :: 'u' :: a :: b :: c :: d :: rest =>
    match Text.hexQuad? a b c d with
    | none => none
    | some n =>
      match h : if isHighHalf n then lowHalf? rest else none with
      | some (low, rest') =>
        have : rest'.length < rest.length := by
          split at h
          · exact length_lowHalf?_lt h
          · simp at h
        (readString rest').map fun (ps, after) => (.char (joinHalves n low) :: ps, after)
      | none => (readString rest).map fun (ps, after) => (ofUnit n :: ps, after)
  | '\\' :: c :: rest =>
    match unescape? c with
    | none => none
    | some ch => (readString rest).map fun (ps, after) => (.char ch :: ps, after)
  | c :: rest =>
    if c.toNat < 0x20 then none
    else (readString rest).map fun (ps, after) => (.char c :: ps, after)
termination_by cs.length
decreasing_by all_goals simp_all <;> omega

theorem length_readString_lt {cs rest : List Char} {content : List CodePoint}
    (h : readString cs = some (content, rest)) : rest.length < cs.length := by
  fun_induction readString cs generalizing content rest
  all_goals (try (simp at h; done))
  case case2 r =>
    simp at h
    simp [h.2]
  all_goals
    rename_i ih
    simp only [Option.map_eq_some_iff, Prod.exists, Prod.mk.injEq] at h
    obtain ⟨_, after, hr, -, rfl⟩ := h
    have := ih hr
    simp only [List.length_cons]
    omega

/-- The token of a numeral. -/
def ofNumeral (negative : Bool) (n : Numeral) : Token :=
  if !n.isInteger then real (.nearest negative n.decimal)
  else if maxDigits < n.whole.length then longInt n.whole.length
  else
    let size : Int := Numeral.value n.whole
    int (if negative then -size else size)

/-- The names of the numbers without digits and of the other words, with their tokens. -/
def words : List (List Char × Token) :=
  [(['n', 'u', 'l', 'l'], null), (['t', 'r', 'u', 'e'], bool true),
    (['f', 'a', 'l', 's', 'e'], bool false), (['N', 'a', 'N'], real .nan),
    (['I', 'n', 'f', 'i', 'n', 'i', 't', 'y'], real (.infinite false)),
    (['-', 'I', 'n', 'f', 'i', 'n', 'i', 't', 'y'], real (.infinite true))]

/-- The word that a text starts with, and what follows it. -/
def readWord (cs : List Char) : Option (Token × List Char) :=
  (words.find? fun (w, _) => w.isPrefixOf cs).map fun (w, token) => (token, cs.drop w.length)

theorem length_readWord_lt {cs rest : List Char} {token : Token}
    (h : readWord cs = some (token, rest)) : rest.length < cs.length := by
  simp only [readWord, Option.map_eq_some_iff, Prod.exists, Prod.mk.injEq] at h
  obtain ⟨w, t, hf, rfl, rfl⟩ := h
  have hp : w <+: cs := by simpa using List.find?_some hf
  have hle := hp.length_le
  have hw : 0 < w.length := by
    have hm := List.mem_of_find?_eq_some hf
    have all : ∀ p ∈ words, 0 < p.1.length := by decide
    exact all _ hm
  simp only [List.length_drop]
  omega

/-- The number that a text starts with, and what follows it. -/
def readNumber (cs : List Char) : Option (Token × List Char) :=
  match cs with
  | '-' :: rest => (Numeral.read rest).map fun (n, after) => (ofNumeral true n, after)
  | cs => (Numeral.read cs).map fun (n, after) => (ofNumeral false n, after)

theorem length_readNumber_lt {cs rest : List Char} {token : Token}
    (h : readNumber cs = some (token, rest)) : rest.length < cs.length := by
  unfold readNumber at h
  split at h <;> simp only [Option.map_eq_some_iff, Prod.exists, Prod.mk.injEq] at h <;>
    obtain ⟨n, after, hr, -, rfl⟩ := h <;> have := Numeral.length_read_lt hr
  · simp only [List.length_cons]
    omega
  · exact this

/-- The string that a text starts with, and what follows it. -/
def readQuoted : List Char → Option (Token × List Char)
  | '"' :: rest => (readString rest).map fun (ps, after) => (str (Str.ofPoints ps), after)
  | _ => none

theorem length_readQuoted_lt {cs rest : List Char} {token : Token}
    (h : readQuoted cs = some (token, rest)) : rest.length < cs.length := by
  unfold readQuoted at h
  split at h
  · simp only [Option.map_eq_some_iff, Prod.exists, Prod.mk.injEq] at h
    obtain ⟨ps, after, hr, -, rfl⟩ := h
    have := length_readString_lt hr
    simp only [List.length_cons]
    omega
  · simp at h

/-- The bracket, comma or colon that a text starts with, and what follows it. -/
def readMark : List Char → Option (Token × List Char)
  | c :: rest => (ofChar? c).map fun token => (token, rest)
  | [] => none

theorem length_readMark_lt {cs rest : List Char} {token : Token}
    (h : readMark cs = some (token, rest)) : rest.length < cs.length := by
  unfold readMark at h
  split at h
  · simp only [Option.map_eq_some_iff, Prod.mk.injEq] at h
    obtain ⟨_, -, -, rfl⟩ := h
    simp
  · simp at h

/-- The token that a text starts with, and what follows it. -/
def read (cs : List Char) : Option (Token × List Char) :=
  readMark cs <|> readQuoted cs <|> readWord cs <|> readNumber cs

theorem length_read_lt {cs rest : List Char} {token : Token} (h : read cs = some (token, rest)) :
    rest.length < cs.length := by
  simp only [read, Option.orElse_eq_orElse, Option.orElse_eq_or, Option.or_eq_some_iff] at h
  rcases h with h | ⟨-, h | ⟨-, h | ⟨-, h⟩⟩⟩
  · exact length_readMark_lt h
  · exact length_readQuoted_lt h
  · exact length_readWord_lt h
  · exact length_readNumber_lt h

/-- The tokens of a document. -/
def ofChars (cs : List Char) : List Token :=
  match cs with
  | [] => []
  | c :: rest =>
    if isSpace c then ofChars rest
    else
      match (read (c :: rest)).attach with
      | none => [invalid]
      | some ⟨(token, after), h⟩ => token :: ofChars after
termination_by cs.length
decreasing_by
  · exact Nat.lt_succ_self _
  · exact length_read_lt h

end Token

end TemplateTree.Json
