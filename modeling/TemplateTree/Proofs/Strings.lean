import TemplateTree.Production.Strings
import TemplateTree.Proofs.Reads
import TemplateTree.Proofs.Shape

/-!
# Strings and expressions

What the parts of a string look like, and what the productions for strings, interpolations and
expressions ensure: well-formed nodes, and progress wherever a loop relies on it.
-/

set_option autoImplicit false

namespace TemplateTree

namespace Pattern

/-- A pattern that matches only where there is something, and reads some of it. -/
def Consumes (p : Pattern) : Prop := ∀ cs m, p cs = some m → 0 < m.length ∧ cs ≠ []

theorem consumes_satisfy (p : Char → Bool) : Consumes (satisfy p) := by
  intro cs m h
  cases cs with
  | nil => simp [satisfy] at h
  | cons c cs =>
    simp only [satisfy, Option.ite_none_right_eq_some, Option.some.injEq] at h
    exact ⟨h.2 ▸ Nat.one_pos, by simp⟩

theorem consumes_char (c : Char) : Consumes (char c) := consumes_satisfy _

theorem consumes_some1 (p : Char → Bool) : Consumes (some1 p) := by
  intro cs m h
  unfold some1 at h
  split at h
  · simp at h
  · rename_i n hn
    refine ⟨by simp at h; simp [← h, Match.plain], ?_⟩
    intro heq
    subst heq
    simp [runLength, run] at hn

theorem consumes_sequence {p : Pattern} (h : Consumes p) (ps : List Pattern) :
    Consumes (sequence (p :: ps)) := by
  intro cs m hm
  cases ps with
  | nil => exact h cs m hm
  | cons q ps =>
    simp only [sequence, andThen] at hm
    split at hm
    · simp at hm
    · rename_i m₁ hp
      obtain ⟨hpos, hne⟩ := h cs m₁ hp
      split at hm
      · simp at hm
      · simp only [Option.some.injEq] at hm
        exact ⟨by simp [← hm]; omega, hne⟩

theorem Consumes.captured {p : Pattern} (h : Consumes p) : Consumes (captured p) := by
  intro cs m hm
  obtain ⟨m', hp, rfl⟩ := Option.map_eq_some_iff.mp hm
  exact h cs m' hp

end Pattern

namespace Quoting

/-- After a run of text no other one starts. -/
theorem run_drop_run (q : Quoting) (cs : List Char) : q.run (cs.drop (q.run cs)) = 0 := by
  cases q with
  | quoted =>
    unfold run
    fun_induction Pattern.quotedRun cs <;> simp_all [Pattern.quotedRun]
  | bare =>
    unfold run
    fun_induction Pattern.bareRun cs <;> simp_all [Pattern.bareRun]

theorem unescape_ne_nil (q : Quoting) {cs : List Char} (h : cs ≠ []) : q.unescape cs ≠ [] := by
  fun_cases unescape q cs <;> simp_all

end Quoting

/-- There is something between the braces of an interpolation. -/
theorem Scan.two_lt_of_interpolation {cs : List Char} {n : Nat} (h : interpolation cs = some n) :
    2 < n := by
  unfold interpolation at h
  split at h
  · rename_i body
    rcases hc : closingBrace 0 none body with _ | _ | k <;> simp [hc] at h
    omega
  · simp at h

namespace Part

def isText : Part → Bool
  | text .. => true
  | insert .. => false

def content : Part → List Char
  | text _ content | insert _ content => content

theorem le_stop_read (q : Quoting) (start : Int) (cs : List Char) : start ≤ (read q start cs).2 := by
  fun_induction read q start cs with
  | case1 start cs hn n parts stop heq ih =>
    rw [heq] at ih
    simp only at ih ⊢
    omega
  | case2 start cs hn n h hlt parts stop heq ih =>
    rw [heq] at ih
    simp only at ih ⊢
    omega
  | case3 => exact Int.le_refl _

/-- Every part of a string says something. -/
theorem content_ne_nil_of_mem_read {q : Quoting} {start : Int} {cs : List Char} :
    ∀ p ∈ (read q start cs).1, p.content ≠ [] := by
  fun_induction read q start cs with
  | case1 start cs hn n parts stop heq ih =>
    rw [heq] at ih
    intro p hp
    rcases List.mem_cons.mp hp with rfl | hp
    · apply q.unescape_ne_nil
      have hle := q.run_le cs
      apply List.ne_nil_of_length_pos
      rw [List.length_take]
      omega
    · exact ih p hp
  | case2 start cs hn n h hlt parts stop heq ih =>
    rw [heq] at ih
    intro p hp
    rcases List.mem_cons.mp hp with rfl | hp
    · have htwo := Scan.two_lt_of_interpolation h
      apply List.ne_nil_of_length_pos
      simp only [content, List.length_drop, List.length_take]
      omega
    · exact ih p hp
  | case3 => simp

/-- A text of a string is followed by the end or by an insert. -/
theorem apart_read (q : Quoting) (start : Int) (cs : List Char) :
    (read q start cs).1.IsChain (fun a b => ¬ (a.isText ∧ b.isText)) ∧
      (q.run cs = 0 → ∀ p ∈ (read q start cs).1.head?, p.isText = false) := by
  fun_induction read q start cs with
  | case1 start cs hn n parts stop heq ih =>
    rw [heq] at ih
    obtain ⟨hchain, hhead⟩ := ih
    refine ⟨?_, fun h0 => by omega⟩
    cases parts with
    | nil => exact .singleton _
    | cons p parts =>
      refine .cons_cons ?_ hchain
      have hp := hhead (q.run_drop_run cs) p rfl
      simp [hp]
  | case2 start cs hn n h hlt parts stop heq ih =>
    rw [heq] at ih
    refine ⟨?_, fun _ p hp => by simp at hp; simp [← hp, isText]⟩
    cases parts with
    | nil => exact .singleton _
    | cons p parts => exact .cons_cons (by simp [isText]) ih.1
  | case3 => simp

end Part

namespace Node
variable {i : Bool} {n : Node}

theorem sound_text (s : Value) (p : Option Position) : (Node.text s p).Everywhere (Sound i) :=
  .leaf ⟨trivial, trivial⟩ rfl

theorem sound_insert (s : Value) (e : Escaping) (w : Value) (p : Option Position) :
    (Node.insert s e w p).Everywhere (Sound i) :=
  .leaf ⟨trivial, trivial⟩ rfl

theorem sound_interpolatedString {parts : List Node} (h : StringParts parts) (e : Escaping)
    (p : Option Position) : (Node.interpolatedString parts e p).Everywhere (Sound i) := by
  refine .intro ⟨h, trivial⟩ ?_
  intro m hm
  rcases h.kinds m hm with ⟨s, q, rfl⟩ | ⟨s, e, w, q, rfl⟩
  · exact sound_text _ _
  · exact sound_insert _ _ _ _

theorem sound_statement (h : n.Everywhere (Sound i))
    (hk : n.kind = .insert ∨ n.kind = .interpolatedString ∨ n.kind = .text) (p : Option Position) :
    (Node.statement n p).Everywhere (Sound i) := by
  refine .intro ⟨hk, trivial⟩ ?_
  intro m hm
  rwa [List.mem_singleton.mp hm]

theorem stringParts_empty (p : Position) : StringParts [ofText [] p] where
  nonempty := by simp
  kinds := by
    intro n hn
    rw [List.mem_singleton.mp hn]
    exact Or.inl ⟨_, _, rfl⟩
  apart := .singleton _
  text_nonempty := by
    intro q hq
    rw [List.mem_singleton.mp hq]
  insert_nonempty := by
    intro e w q hq
    exact absurd (List.mem_singleton.mp hq) (by simp [ofText])

theorem stringParts_ofParts (c : Cursor) {parts : List Part} (hne : parts ≠ [])
    (hcontent : ∀ p ∈ parts, p.content ≠ [])
    (hchain : parts.IsChain fun a b => ¬ (a.isText ∧ b.isText)) :
    StringParts (parts.map (ofPart c)) where
  nonempty := by simpa using hne
  kinds := by
    intro n hn
    obtain ⟨p, _, rfl⟩ := List.mem_map.mp hn
    cases p with
    | text start content => exact Or.inl ⟨_, _, rfl⟩
    | insert start content => exact Or.inr ⟨_, _, _, _, rfl⟩
  apart := by
    rw [List.isChain_map]
    apply hchain.imp
    intro a b hab
    cases a <;> cases b <;> simp_all [ofPart, ofText, ofExpression, kind, Part.isText]
  text_nonempty := by
    intro q hq
    obtain ⟨p, hp, heq⟩ := List.mem_map.mp hq
    have hc := hcontent p hp
    cases p with
    | text start content =>
      simp only [ofPart, ofText, Node.text.injEq, Value.str.injEq, Str.chars.injEq] at heq
      exact absurd (String.ofList_eq_empty_iff.mp heq.1) hc
    | insert start content => simp [ofPart, ofExpression] at heq
  insert_nonempty := by
    intro e w q hq
    obtain ⟨p, hp, heq⟩ := List.mem_map.mp hq
    have hc := hcontent p hp
    cases p with
    | text start content => simp [ofPart, ofText] at heq
    | insert start content =>
      simp only [ofPart, ofExpression, Node.insert.injEq, Value.str.injEq, Str.chars.injEq] at heq
      exact absurd (String.ofList_eq_empty_iff.mp heq.1) hc

end Node

theorem Scan.expression_pos {delimiters cs : List Char} {n : Nat}
    (h : expression delimiters cs = some n) : 0 < n ∧ cs ≠ [] := by
  unfold expression at h
  split at h
  · simp at h
  · rename_i hne
    obtain rfl := Option.some.inj h
    refine ⟨Nat.pos_of_ne_zero fun h0 => hne h0, ?_⟩
    intro heq
    subst heq
    exact hne rfl

namespace Cursor
variable {c : Cursor} (h : c.Inside)
include h

/-- The rest of the line, from a column that counts from its start. -/
theorem exists_rest : ∃ n : Nat, c.column = n ∧ n ≤ c.line.length ∧ c.rest = c.line.drop n := by
  obtain ⟨n, hn, hle⟩ := exists_column h
  exact ⟨n, hn, hle, by rw [rest, hn, Text.tail_natCast]⟩

theorem rest_skip (n : Nat) : (c.skip n).rest = c.rest.drop n := by
  obtain ⟨k, hk, hle, hrest⟩ := exists_rest h
  rw [hrest, List.drop_drop]
  by_cases hend : k + n ≤ c.line.length
  · have hcolumn : min (c.column + n) (c.line.length : Int) = ((k + n : Nat) : Int) := by omega
    rw [skip, rest]
    dsimp only
    rw [hcolumn, Text.tail_natCast]
  · have hcolumn : min (c.column + n) (c.line.length : Int) = (c.line.length : Int) := by omega
    rw [skip, rest]
    dsimp only
    rw [hcolumn, Text.tail_natCast, List.drop_length, List.drop_eq_nil_of_le (by omega)]

theorem isEnd_iff : c.isEnd ↔ c.rest = [] := by
  obtain ⟨n, hn, hle, hrest⟩ := exists_rest h
  rw [isEnd, decide_eq_true_iff, hn, hrest, List.drop_eq_nil_iff]
  omega

theorem column_skip {n : Nat} (hn : n ≤ c.rest.length) : (c.skip n).column = c.column + n := by
  obtain ⟨k, hk, hle, hrest⟩ := exists_rest h
  rw [hrest, List.length_drop] at hn
  rw [skip]
  dsimp only
  omega

theorem skip_length_rest : c.skip c.rest.length = c.skipRest := by
  obtain ⟨k, hk, hle, hrest⟩ := exists_rest h
  have hcolumn := column_skip h (Nat.le_refl _)
  rw [hrest, List.length_drop] at hcolumn ⊢
  unfold skip skipRest
  congr 1
  omega

/-- The next characters of the line, from the column of a cursor on. -/
theorem slice_eq (n : Nat) : Text.slice c.line c.column (c.column + n) = c.rest.take n := by
  obtain ⟨k, hk, hle, hrest⟩ := exists_rest h
  have hslice := Text.slice_natCast c.line k (k + n)
  rw [Nat.add_sub_cancel_left] at hslice
  rw [hrest, hk]
  exact_mod_cast hslice

theorem readLine_eq (q : Quoting) :
    Part.readLine q c.line c.column = .ok (Part.read q c.column c.rest) := by
  obtain ⟨n, hn, _, hr⟩ := exists_rest h
  rw [hn, hr, Part.readLine_natCast]

theorem interpolationAt_eq :
    Scan.interpolationAt c.line c.column = .ok (Scan.stopOf c.column (Scan.interpolation c.rest)) := by
  obtain ⟨n, hn, _, hr⟩ := exists_rest h
  rw [hn, hr, Scan.interpolationAt_natCast]

theorem expressionAt_eq (delimiters : List Char) :
    Scan.expressionAt delimiters c.line c.column =
      .ok (Scan.stopOf c.column (Scan.expression delimiters c.rest)) := by
  obtain ⟨n, hn, _, hr⟩ := exists_rest h
  rw [hn, hr, Scan.expressionAt_natCast]

/-- A move to a later column of a line that goes on. -/
theorem remaining_column_lt {target : Int} (hr : c.rest ≠ []) (ahead : c.column < target) :
    ({ c with column := min target c.line.length } : Cursor).remaining < c.remaining := by
  have hlt := column_lt_of_rest_ne_nil h hr
  simp only [remaining, Cursor.ahead]
  omega

end Cursor

namespace Reading
variable {r : Reading} (h : r.cursor.Inside)
include h

theorem inside_skip (n : Nat) : (r.skip n).cursor.Inside := (Cursor.onward_skip h n).inside

theorem rest_skip (n : Nat) : (r.skip n).cursor.rest = r.cursor.rest.drop n := Cursor.rest_skip h n

end Reading

namespace Production
variable {r : Reading} (h : r.cursor.Inside)
include h

theorem reads_stringEnd (q : Quoting) :
    Reads (stringEnd q) r fun _ r' => r'.cursor.entered = r.cursor.entered := by
  cases q with
  | quoted =>
    apply Reads.bind (reads_eat h _)
    intro _ r' hon hq
    rcases hq with ⟨rfl, _, rfl⟩ | ⟨m, rfl, _, rfl⟩
    · exact reads_expected h _
    · exact Reads.pure hon.inside rfl
  | bare =>
    unfold stringEnd
    rw [reads_cursor_bind]
    split
    · exact reads_expected h _
    · exact Reads.pure h rfl

theorem reads_stringBody (q : Quoting) : Reads (stringBody q) r fun n r' =>
    (∃ parts p, n = .interpolatedString parts .inherit p ∧ Node.StringParts parts) ∧
      r'.cursor.entered = r.cursor.entered := by
  unfold stringBody
  rw [reads_cursor_bind, Cursor.readLine_eq h, reads_onLine_bind]
  apply Reads.bind (reads_advanceTo h (Part.le_stop_read _ _ _))
  intro _ r₁ hon₁ heq
  subst heq
  apply Reads.bind (reads_stringEnd hon₁.inside q)
  intro _ r₂ hon₂ he₂
  rw [reads_cursor_bind]
  refine Reads.pure hon₂.inside ⟨⟨_, _, rfl, ?_⟩, he₂⟩
  split
  · exact Node.stringParts_empty _
  · rename_i hne
    exact Node.stringParts_ofParts _ (by simpa using hne) Part.content_ne_nil_of_mem_read
      (Part.apart_read _ _ _).1

theorem reads_interpolatedString (q : Quoting) : Reads (interpolatedString q) r fun n r' =>
    (∃ parts p, n = .interpolatedString parts .inherit p ∧ Node.StringParts parts) ∧
      r'.cursor.entered = r.cursor.entered := by
  cases q with
  | quoted =>
    apply Reads.bind (reads_eat h _)
    intro _ r₁ hon hq
    rcases hq with ⟨rfl, _, rfl⟩ | ⟨m, rfl, _, rfl⟩
    · exact reads_expected_bind h _
    · exact reads_stringBody hon.inside _
  | bare => exact reads_stringBody h _

theorem reads_interpolation? : Reads interpolation? r fun n r' =>
    (n = none ∧ r' = r) ∨ ∃ cs p, n = some (.ofExpression cs p) ∧
      r'.cursor.remaining < r.cursor.remaining := by
  unfold interpolation?
  rw [reads_cursor_bind, Cursor.interpolationAt_eq h, reads_onLine_bind]
  cases hs : Scan.interpolation r.cursor.rest with
  | none => exact Reads.pure h (Or.inl ⟨rfl, rfl⟩)
  | some n =>
    have hne := List.ne_nil_of_length_pos (Nat.zero_lt_of_lt (Scan.interpolation_lt hs))
    simp only [Scan.stopOf, Option.map_some]
    apply Reads.bind (reads_advanceTo h (by omega))
    intro _ r₁ hon heq
    subst heq
    exact Reads.pure hon.inside
      (Or.inr ⟨_, _, rfl, Cursor.remaining_column_lt h hne (by omega)⟩)

theorem reads_expression (delimiters : List Char) :
    Reads (expression delimiters) r fun _ r' => r'.cursor.remaining < r.cursor.remaining := by
  unfold expression
  rw [reads_cursor_bind, Cursor.expressionAt_eq h, reads_onLine_bind]
  cases hs : Scan.expression delimiters r.cursor.rest with
  | none => exact reads_expected h _
  | some n =>
    obtain ⟨hpos, hne⟩ := Scan.expression_pos hs
    simp only [Scan.stopOf, Option.map_some]
    apply Reads.bind (reads_advanceTo h (by omega))
    intro _ r₁ hon heq
    subst heq
    exact Reads.pure hon.inside (Cursor.remaining_column_lt h hne (by omega))

theorem reads_symbol : Reads symbol r fun n _ => ∃ cs p, n = .ofText cs p := by
  unfold symbol
  rw [reads_cursor_bind, Cursor.inLine_eq h]
  apply Reads.bind (reads_eat? h _)
  intro _ r₁ hon hq
  rcases hq with ⟨rfl, _, rfl⟩ | ⟨m, rfl, _, rfl⟩
  · exact reads_expected h _
  · exact Reads.pure hon.inside ⟨_, _, rfl⟩

/-- A literal is a string or the name of a symbol. -/
theorem reads_literal {i : Bool} {text : List Char} {p : Production Node}
    (hp : literal? text = some p) : Reads p r fun n _ => n.Everywhere (Node.Sound i) := by
  unfold literal? at hp
  split at hp
  · obtain rfl := Option.some.inj hp
    apply (reads_interpolatedString h .quoted).imp
    intro _ r' _ hq
    obtain ⟨⟨parts, p, rfl, hparts⟩, _⟩ := hq
    exact Node.sound_interpolatedString hparts _ _
  · obtain rfl := Option.some.inj hp
    apply (reads_symbol h).imp
    intro _ r' _ hq
    obtain ⟨cs, p, rfl⟩ := hq
    exact Node.sound_text _ _
  · simp at hp

omit h in
/-- A production is tried from a place further back, and reading goes on from where it was. -/
theorem reads_speculate_bind {β : Type} {start : Cursor} {p : Production Node} {P : Node → Prop}
    {k : Option (Node × Int) → Production β} {R : β → Reading → Prop} (h : r.cursor.Inside)
    (hp : Reads p { r with cursor := start } fun n _ => P n)
    (hk : ∀ result r', r.Onward r' → r'.cursor = r.cursor →
      (∀ n reached, result = some (n, reached) → P n) → Reads (k result) r' R) :
    Reads (do
      setCursor start
      let result ← speculate p
      setCursor r.cursor
      k result) r R := by
  unfold Reads
  rw [ensures_bind]
  change Ensures _ { r with cursor := start } _ _
  unfold speculate
  rw [bind_assoc, ensures_bind]
  refine (ensures_attempt hp).imp ?_ fun _ _ hf => hf.elim
  intro a r₁ hq
  obtain ⟨hon₁, ha⟩ := hq
  have hback : r.Onward { r₁ with cursor := r.cursor } := ⟨.refl h, hon₁.indent, hon₁.outline⟩
  cases a with
  | none =>
    have hrest := hk none _ hback rfl (by simp)
    exact Ensures.imp hrest (fun _ _ hr => ⟨hback.trans hr.1, hr.2⟩)
      (fun _ _ he => ⟨hback.trans he.1, he.2⟩)
  | some n =>
    have hrest := hk (some (n, r₁.cursor.column)) _ hback rfl (by
      intro m reached hm
      simp only [Option.some.injEq, Prod.mk.injEq] at hm
      exact hm.1 ▸ ha n rfl)
    exact Ensures.imp hrest (fun _ _ hr => ⟨hback.trans hr.1, hr.2⟩)
      (fun _ _ he => ⟨hback.trans he.1, he.2⟩)

theorem reads_attributeExpression {i : Bool} (delimiters : List Char) :
    Reads (attributeExpression delimiters) r fun n r' =>
      n.Everywhere (Node.Sound i) ∧ r'.cursor.remaining < r.cursor.remaining := by
  unfold attributeExpression
  rw [reads_cursor_bind]
  apply Reads.bind (reads_expression h delimiters)
  rintro ⟨text, position⟩ r₁ hon₁ hlt
  have hins : (Node.ofExpression text position).Everywhere (Node.Sound i) :=
    Node.sound_insert _ _ _ _
  cases hl : literal? text with
  | none =>
    simp only [hl]
    exact Reads.pure hon₁.inside ⟨hins, hlt⟩
  | some literal =>
    simp only [hl]
    rw [reads_cursor_bind]
    have hliteral := reads_literal (r := { r₁ with cursor := r.cursor }) (i := i) h hl
    apply reads_speculate_bind hon₁.inside hliteral
    intro result r₂ hon₂ hc hresult
    rcases result with _ | ⟨node, reached⟩
    · exact Reads.pure hon₂.inside ⟨hins, by rwa [hc]⟩
    · dsimp only
      split
      · rename_i hle
        apply Reads.bind (reads_advanceTo hon₂.inside (by rwa [hc]))
        intro _ r₃ hon₃ heq
        subst heq
        exact Reads.pure hon₃.inside ⟨hresult node reached rfl,
          Nat.lt_of_le_of_lt (hon₂.trans hon₃).remaining_le hlt⟩
      · exact Reads.pure hon₂.inside ⟨hins, by rwa [hc]⟩

end Production

end TemplateTree
