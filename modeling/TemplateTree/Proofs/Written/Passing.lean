import TemplateTree.Proofs.Attributes
import TemplateTree.Proofs.Written.Lines

/-!
# Passing over texts

`Passes p before after Q` says that wherever a reading stands before `before`, the production `p`
succeeds with a value in `Q` and leaves it before `after`. So what a production does with a text
that was written for it is put together from what its parts do with the parts of the text.
-/

set_option autoImplicit false

namespace TemplateTree

namespace Pattern
open Text

/-- The pattern reads `text` before `rest`, and no more. -/
def Takes (p : Pattern) (text rest : List Char) : Prop :=
  ∃ m, p (text ++ rest) = some m ∧ m.length = text.length

variable {p q : Pattern} {isIt : Char → Bool} {text text' rest cs : List Char} {c : Char}

theorem takes_char (c : Char) (rest : List Char) : (char c).Takes [c] rest :=
  ⟨.plain 1, by simp [char, satisfy], rfl⟩

theorem takes_word (w rest : List Char) : (word w).Takes w rest :=
  ⟨.plain w.length, by simp [word], rfl⟩

theorem run_append_of_head (htext : ∀ c ∈ text, isIt c) (hrest : Starts (isIt · = false) rest) :
    run isIt (text ++ rest) = text := by
  unfold run
  rw [List.takeWhile_append_of_pos htext]
  cases rest with
  | nil => simp
  | cons c rest => simp [hrest c rfl]

theorem takes_many (htext : ∀ c ∈ text, isIt c) (hrest : Starts (isIt · = false) rest) :
    (many isIt).Takes text rest :=
  ⟨_, rfl, congrArg List.length (run_append_of_head htext hrest)⟩

theorem takes_no_blanks (hrest : Starts (isBlank · = false) rest) : blanks.Takes [] rest :=
  takes_many nofun hrest

theorem some1_append (hne : text ≠ []) (htext : ∀ c ∈ text, isIt c)
    (hrest : Starts (isIt · = false) rest) :
    some1 isIt (text ++ rest) = some (.plain text.length) := by
  have hlength : runLength isIt (text ++ rest) = text.length :=
    congrArg List.length (run_append_of_head htext hrest)
  unfold some1
  cases text with
  | nil => exact absurd rfl hne
  | cons c text => rw [hlength, List.length_cons]

theorem takes_some1 (hne : text ≠ []) (htext : ∀ c ∈ text, isIt c)
    (hrest : Starts (isIt · = false) rest) : (some1 isIt).Takes text rest :=
  ⟨.plain text.length, some1_append hne htext hrest, rfl⟩

theorem Takes.andThen (hp : p.Takes text (text' ++ rest)) (hq : q.Takes text' rest) :
    (p.andThen q).Takes (text ++ text') rest := by
  obtain ⟨m, hm, hlength⟩ := hp
  obtain ⟨m', hm', hlength'⟩ := hq
  refine ⟨⟨m.length + m'.length, m.groups ++ m'.groups⟩, ?_, ?_⟩
  · unfold Pattern.andThen
    rw [List.append_assoc, hm]
    dsimp only
    rw [hlength, List.drop_left, hm']
  · rw [List.length_append, ← hlength, ← hlength']

theorem char_eq_none (h : Starts (· ≠ c) cs) : char c cs = none := by
  cases cs with
  | nil => rfl
  | cons d cs => simpa [char, satisfy] using h

theorem andThen_eq_none (h : p cs = none) : (p.andThen q) cs = none := by
  unfold Pattern.andThen
  rw [h]

/-- Blanks are passed before a pattern is tried. -/
theorem blanks_andThen_eq_none (h : q (cs.dropWhile isBlank) = none) :
    (blanks.andThen q) cs = none := by
  unfold Pattern.andThen blanks many
  dsimp only [Match.plain]
  rw [drop_runLength, h]

end Pattern

namespace Production
open Text
variable {α β : Type}

/-- Wherever a reading stands before `before`, the production succeeds with a value in `Q` and
leaves it before `after`. -/
def Passes (p : Production α) (before after : List Char) (Q : α → Prop) : Prop :=
  ∀ r : Reading, r.cursor.StandsBefore before →
    ∃ a r', p.run r = (.ok a, r') ∧ Q a ∧ r'.cursor.StandsBefore after

section Rules
variable {p : Production α} {f : α → Production β} {before between after text ends : List Char}
  {P Q : α → Prop} {R : β → Prop}

theorem Passes.pure {a : α} (h : Q a) : Passes (pure a) before before Q :=
  fun r hr => ⟨a, r, rfl, h, hr⟩

theorem Passes.imp (h : Passes p before after P) (himp : ∀ a, P a → Q a) :
    Passes p before after Q := by
  intro r hr
  obtain ⟨a, r', hrun, ha, hr'⟩ := h r hr
  exact ⟨a, r', hrun, himp a ha, hr'⟩

theorem Passes.bind (h : Passes p before between P)
    (hf : ∀ a, P a → Passes (f a) between after R) : Passes (p >>= f) before after R := by
  intro r hr
  obtain ⟨a, r₁, hrun, ha, hr₁⟩ := h r hr
  obtain ⟨b, r₂, hrun₂, hb, hr₂⟩ := hf a ha r₁ hr₁
  exact ⟨b, r₂, by rw [run_bind, hrun]; exact hrun₂, hb, hr₂⟩

theorem passes_cursor : Passes cursor before before (·.StandsBefore before) :=
  fun r hr => ⟨r.cursor, r, rfl, hr, hr⟩

theorem passes_peekChar :
    Passes peekChar before before (· = (headLine before).head?) := by
  intro r hr
  refine ⟨r.cursor.rest.head?, r, ?_, by rw [hr.rest], hr⟩
  rw [← bind_pure peekChar, run_peekChar_bind hr.inside]
  rfl

theorem passes_eat?_none {p : Pattern} (h : p (headLine before) = none) :
    Passes (eat? p) before before (· = none) := by
  intro r hr
  refine ⟨none, r, ?_, rfl, hr⟩
  rw [run_eat? hr.inside, hr.rest, h]

theorem passes_eat_none {p : Pattern} (h : p (headLine before) = none) :
    Passes (eat p) before before (· = false) :=
  Passes.bind (passes_eat?_none h) fun _ ha => Passes.pure (by rw [ha]; rfl)

theorem passes_eat? {p : Pattern} {m : Match} (hm : p (text ++ headLine after) = some m)
    (hlength : m.length = text.length) (htext : Unbroken text) :
    Passes (eat? p) (text ++ after) after (· = some m) := by
  intro r hr
  refine ⟨some m, r.skip m.length, ?_, rfl, ?_⟩
  · rw [run_eat? hr.inside, hr.rest, headLine_append htext, hm]
  · rw [hlength]
    exact hr.skip htext

theorem passes_eat {p : Pattern} (hp : p.Takes text (headLine after)) (htext : Unbroken text) :
    Passes (eat p) (text ++ after) after (· = true) := by
  obtain ⟨m, hm, hlength⟩ := hp
  exact Passes.bind (passes_eat? hm hlength htext) fun _ ha => Passes.pure (by rw [ha]; rfl)

/-- A pattern that reads up to the end of a line, with what that leaves in the line. -/
theorem passes_eat_residue {p : Pattern} (hp : p.Takes (text ++ residue ends) [])
    (htext : Unbroken text) (hends : Breaks ends after) :
    Passes (eat p) (text ++ (ends ++ after)) ('\n' :: after) (· = true) := by
  intro r hr
  obtain ⟨m, hm, hlength⟩ := hp
  have hrest : r.cursor.rest = text ++ residue ends ++ [] := by
    rw [hr.rest, headLine_append htext, headLine_break hends, List.append_nil]
  refine ⟨true, r.skip m.length, ?_, rfl, ?_⟩
  · rw [run_eat hr.inside, hrest, hm]
  · rw [hlength, List.length_append, ← Reading.skip_skip]
    exact (hr.skip htext).skip_residue hends

theorem passes_skipIndent (htext : ∀ c ∈ text, isIndent c)
    (hafter : Starts (isIndent · = false) (headLine after)) :
    Passes skipIndent (text ++ after) after fun _ => True := by
  intro r hr
  have hunbroken : Unbroken text := fun c hc => not_isLineBreak_of_isIndent (htext c hc)
  refine ⟨(), r.skip text.length, ?_, trivial, hr.skip hunbroken⟩
  rw [← bind_pure skipIndent, run_skipIndent_bind hr.inside, hr.rest, headLine_append hunbroken,
    Pattern.runLength, Pattern.run_append_of_head htext hafter]
  rfl

theorem passes_skipIndent_nothing (h : Starts (isIndent · = false) (headLine before)) :
    Passes skipIndent before before fun _ => True := by
  have hnothing : Passes skipIndent ([] ++ before) before fun _ => True :=
    passes_skipIndent nofun h
  exact hnothing

theorem passes_continueList (closer : Char) (hends : Breaks ends (text ++ after))
    (hne : after ≠ []) (htext : ∀ c ∈ text, isIndent c)
    (hafter : Starts (isIndent · = false) (headLine after)) :
    Passes (continueList closer) (ends ++ (text ++ after)) after fun _ => True := by
  intro r hr
  have hline : text ++ after ≠ [] := List.append_ne_nil_of_right_ne_nil text hne
  obtain ⟨line, hp⟩ := hr.exists_peekLine hends hline
  have hnext := hr.nextLine hends hline
  obtain ⟨_, r', hrun, -, hr'⟩ :=
    passes_skipIndent htext hafter { r with cursor := r.cursor.nextLine.2 } hnext
  refine ⟨(), r', ?_, trivial, hr'⟩
  rw [run_continueList hp, ← hrun]
  rfl

theorem passes_interpolation?_none (h : Scan.interpolation (headLine before) = none) :
    Passes interpolation? before before (· = none) := by
  intro r hr
  refine ⟨none, r, ?_, rfl, hr⟩
  unfold interpolation?
  rw [run_cursor_bind, Cursor.interpolationAt_eq hr.inside, hr.rest, h]
  rfl

/-- A list that goes on in its line. -/
theorem passes_stay (closer : Char) (a : α) (h : headLine before ≠ []) :
    Passes (do if (← cursor).isEnd then continueList closer
               return a) before before (· = a) := by
  refine Passes.bind passes_cursor fun c hc => ?_
  have hend : c.isEnd = false := by
    rwa [← Bool.not_eq_true, Cursor.isEnd_iff hc.inside, hc.rest]
  rw [hend]
  exact Passes.pure rfl

/-- A list that goes on in the next line. -/
theorem passes_goOn (closer : Char) (a : α) (hends : Breaks ends (text ++ after))
    (hresidue : residue ends = []) (hne : after ≠ []) (htext : ∀ c ∈ text, isIndent c)
    (hafter : Starts (isIndent · = false) (headLine after)) :
    Passes (do if (← cursor).isEnd then continueList closer
               return a) (ends ++ (text ++ after)) after (· = a) := by
  refine Passes.bind passes_cursor fun c hc => ?_
  have hend : c.isEnd = true := by
    rw [Cursor.isEnd_iff hc.inside, hc.rest, headLine_break hends]
    exact hresidue
  rw [hend]
  exact Passes.bind (passes_continueList closer hends hne htext hafter) fun _ _ => Passes.pure rfl

end Rules

section Expressions
variable {r : Reading} {delimiters text name after : List Char}

theorem run_expression (h : r.cursor.Inside) {n : Nat}
    (hscan : Scan.expression delimiters r.cursor.rest = some n) : (expression delimiters).run r =
      (.ok (r.cursor.rest.take n, r.cursor.position), r.skip n) := by
  unfold expression
  rw [run_cursor_bind, Cursor.expressionAt_eq h, hscan]
  change (advanceTo (r.cursor.column + n) >>= fun _ => _).run r = _
  rw [run_bind, run_advanceTo, Cursor.slice_eq h]
  rfl

/-- What starts like no string and no symbol is an expression. -/
theorem run_attributeExpression_plain (h : r.cursor.Inside) {n : Nat}
    (hscan : Scan.expression delimiters r.cursor.rest = some n)
    (hliteral : literal? (r.cursor.rest.take n) = none) : (attributeExpression delimiters).run r =
      (.ok (.ofExpression (r.cursor.rest.take n) r.cursor.position), r.skip n) := by
  unfold attributeExpression
  rw [run_cursor_bind, run_bind, run_expression h hscan]
  dsimp only
  rw [hliteral]
  rfl

theorem passes_attributeExpression (htext : Unbroken text)
    (hscan : Scan.expression delimiters (text ++ headLine after) = some text.length)
    (hliteral : literal? text = none) :
    Passes (attributeExpression delimiters) (text ++ after) after
      fun n => ∃ p, n = .ofExpression text p := by
  intro r hr
  have hrest : r.cursor.rest = text ++ headLine after := by rw [hr.rest, headLine_append htext]
  have htake : r.cursor.rest.take text.length = text := by rw [hrest, List.take_left]
  have hrun := run_attributeExpression_plain hr.inside (by rw [hrest]; exact hscan)
    (by rw [htake]; exact hliteral)
  rw [htake] at hrun
  exact ⟨.ofExpression text r.cursor.position, r.skip text.length, hrun, ⟨_, rfl⟩, hr.skip htext⟩

theorem symbol_eq {rest : List Char} (hne : name ≠ []) (hname : ∀ c ∈ name, isWord c)
    (hrest : Starts (isWord · = false) rest) :
    Pattern.symbol (':' :: (name ++ rest)) = some ⟨1 + name.length, [some name]⟩ := by
  have hcaptured : Pattern.captured (Pattern.some1 isWord) (name ++ rest) =
      some ⟨name.length, [some name]⟩ := by
    rw [Pattern.captured, Pattern.some1_append hne hname hrest, Option.map_some, Match.plain,
      List.take_left]
  simp only [Pattern.symbol, Pattern.sequence, Pattern.andThen, Pattern.char, Pattern.satisfy,
    beq_self_eq_true, if_true, Match.plain, List.drop_one, List.tail_cons, hcaptured]
  rfl

theorem run_symbol_eq (h : r.cursor.Inside) : symbol.run r =
    match Pattern.symbol r.cursor.rest with
    | none => (.error (.refused (r.cursor.error (.unexpected r.cursor.rest.head? .symbol))), r)
    | some m => (.ok (.ofText (m.groupText 0) r.cursor.position), r.skip m.length) := by
  unfold symbol
  rw [run_cursor_bind, Cursor.inLine_eq h, run_bind, run_eat? h]
  cases Pattern.symbol r.cursor.rest with
  | none => exact run_expected h _
  | some m => rfl

theorem run_symbol (h : r.cursor.Inside) {rest : List Char} (hne : name ≠ [])
    (hname : ∀ c ∈ name, isWord c) (hrest : Starts (isWord · = false) rest)
    (heq : r.cursor.rest = ':' :: (name ++ rest)) :
    symbol.run r = (.ok (.ofText name r.cursor.position), r.skip (1 + name.length)) := by
  rw [run_symbol_eq h, heq, symbol_eq hne hname hrest]
  rfl

/-- What starts like a string or a symbol is read as one when that goes as far as the expression
does, and else as the expression. -/
theorem run_attributeExpression_literal (h : r.cursor.Inside) {p : Production Node} {n : Node}
    {m k : Nat} (hscan : Scan.expression delimiters r.cursor.rest = some m)
    (hp : literal? (r.cursor.rest.take m) = some p) (hrun : p.run r = (.ok n, r.skip k))
    (hm : m ≤ r.cursor.rest.length) (hk : k ≤ r.cursor.rest.length) :
    (attributeExpression delimiters).run r =
      if m ≤ k then (.ok n, r.skip k)
      else (.ok (.ofExpression (r.cursor.rest.take m) r.cursor.position), r.skip m) := by
  have hspeculate : (speculate p).run r =
      (.ok (some (n, (r.skip k).cursor.column)), r.skip k) := by
    unfold speculate attempt
    rw [run_bind, ExceptT.run_mk, hrun]
    rfl
  have hstop : (r.skip m).cursor.column = r.cursor.column + m := Cursor.column_skip h hm
  have hreached : (r.skip k).cursor.column = r.cursor.column + k := Cursor.column_skip h hk
  unfold attributeExpression
  rw [run_cursor_bind, run_bind, run_expression h hscan]
  dsimp only
  rw [hp]
  -- the literal is read from where the expression started
  change (speculate p >>= fun result => _).run r = _
  rw [run_bind, hspeculate]
  change (if (r.skip m).cursor.column ≤ (r.skip k).cursor.column
    then advanceTo (r.skip k).cursor.column >>= fun _ => _ else _ : Production Node).run (r.skip m) = _
  by_cases hle : m ≤ k
  · have hadvance := run_advanceTo (r := r.skip m) (k - m)
    have hcolumn : (r.skip m).cursor.column + ((k - m : Nat) : Int) = (r.skip k).cursor.column := by
      omega
    rw [hcolumn, Reading.skip_skip, Nat.add_sub_cancel' hle] at hadvance
    rw [if_pos hle, if_pos (by omega), run_bind, hadvance]
    rfl
  · rw [if_neg hle, if_neg (by omega)]
    rfl

/-- A symbol that is the whole expression is read as one. -/
theorem passes_attributeExpression_symbol (hne : name ≠ []) (hname : ∀ c ∈ name, isWord c)
    (hbreak : Unbroken (':' :: name)) (hafter : Starts (isWord · = false) (headLine after))
    (hscan : Scan.expression delimiters (':' :: name ++ headLine after) = some (1 + name.length)) :
    Passes (attributeExpression delimiters) (':' :: name ++ after) after
      fun n => ∃ p, n = .ofText name p := by
  intro r hr
  have hrest : r.cursor.rest = ':' :: name ++ headLine after := by
    rw [hr.rest, headLine_append hbreak]
  have hlength : (':' :: name).length = 1 + name.length := Nat.add_comm _ _
  have hle : 1 + name.length ≤ r.cursor.rest.length := by
    rw [hrest, List.length_append, hlength]
    exact Nat.le_add_right _ _
  have htake : r.cursor.rest.take (1 + name.length) = ':' :: name := by
    rw [hrest, ← hlength, List.take_left]
  have hrun := run_attributeExpression_literal hr.inside (by rw [hrest]; exact hscan)
    (by rw [htake]; rfl) (run_symbol hr.inside hne hname hafter hrest) hle hle
  rw [if_pos (Nat.le_refl _)] at hrun
  have hstands := hr.skip hbreak
  rw [hlength] at hstands
  exact ⟨_, _, hrun, ⟨_, rfl⟩, hstands⟩

end Expressions

section Loops
variable {β : Type} {step : β → Production (ForInStep β)} {b : β} {before between after : List Char}
  {P Q I : β → Prop}

theorem run_repeatWhile_done {r r' : Reading} {b' : β} (h : (step b).run r = (.ok (.done b'), r')) :
    (repeatWhile step b).run r = (.ok b', r') := by
  unfold repeatWhile
  rw [ExceptT.run_mk, iterate, h]

theorem run_repeatWhile_yield {r r' : Reading} {b' : β} (h : (step b).run r = (.ok (.yield b'), r'))
    (hless : r'.cursor.remaining < r.cursor.remaining) :
    (repeatWhile step b).run r = (repeatWhile step b').run r' := by
  unfold repeatWhile
  rw [ExceptT.run_mk, ExceptT.run_mk, iterate, h]
  exact if_pos hless

theorem run_repeatWhile_error {r r' : Reading} {e : Failure} (h : (step b).run r = (.error e, r')) :
    (repeatWhile step b).run r = (.error e, r') := by
  unfold repeatWhile
  rw [ExceptT.run_mk, iterate, h]

/-- A loop that is done after one step. -/
theorem Passes.done (h : Passes (step b) before after fun s => ∃ b', s = .done b' ∧ Q b') :
    Passes (repeatWhile step b) before after Q := by
  intro r hr
  obtain ⟨_, r', hrun, ⟨b', rfl, hb'⟩, hr'⟩ := h r hr
  exact ⟨b', r', run_repeatWhile_done hrun, hb', hr'⟩

/-- A loop that goes on after one step, which leaves less of the source. -/
theorem Passes.yield {R : β → Reading → Prop}
    (hreads : ∀ r : Reading, r.cursor.Inside → Reads (step b) r (Repeats (fun b _ => I b) R r))
    (h : Passes (step b) before between fun s => ∃ b', s = .yield b' ∧ P b')
    (hrest : ∀ b', I b' → P b' → Passes (repeatWhile step b') between after Q) :
    Passes (repeatWhile step b) before after Q := by
  intro r hr
  obtain ⟨_, r₁, hrun, ⟨b', rfl, hb'⟩, hr₁⟩ := h r hr
  obtain ⟨-, hinv, hless⟩ := (hreads r hr.inside).of_run hrun
  obtain ⟨a, r', hrun', ha, hr'⟩ := hrest b' hinv hb' r₁ hr₁
  exact ⟨a, r', (run_repeatWhile_yield hrun hless).trans hrun', ha, hr'⟩

end Loops

end Production

end TemplateTree
