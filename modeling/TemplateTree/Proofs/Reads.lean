import TemplateTree.Production.Basic
import TemplateTree.Proofs.Cursors

/-!
# What productions ensure

`Ensures p r Q E` says that `p`, run on the reading `r`, succeeds with a value and a reading in `Q`
or fails with a failure and a reading in `E`. `Reads p r Q` is the case of a production that works
on statements: it stays in the source, moves only forwards, leaves indentation and outline alone,
and if it fails, then by a refusal at a line of the source.

The rule for loops asks every repetition for progress, so no loop that is read with it ends because
it stands still.
-/

set_option autoImplicit false

namespace TemplateTree

namespace Reading

/-- A later reading of the same statement. -/
structure Onward (r r' : Reading) : Prop where
  cursor : r.cursor.Onward r'.cursor
  indent : r'.indent = r.indent
  outline : r'.outline = r.outline

namespace Onward
variable {a b c : Reading}

theorem refl (h : a.cursor.Inside) : a.Onward a := ⟨.refl h, rfl, rfl⟩

theorem trans (hab : a.Onward b) (hbc : b.Onward c) : a.Onward c :=
  ⟨hab.cursor.trans hbc.cursor, hbc.indent.trans hab.indent, hbc.outline.trans hab.outline⟩

theorem inside (h : a.Onward b) : b.cursor.Inside := h.cursor.inside

theorem remaining_le (h : a.Onward b) : b.cursor.remaining ≤ a.cursor.remaining :=
  h.cursor.remaining

end Onward

end Reading

/-- A failure by a refusal at a line of the source of a cursor. -/
def Failure.At (c : Cursor) (e : Failure) : Prop :=
  ∃ s : SyntaxError, e = .refused s ∧ s.filename = c.filename ∧ c.firstLine ≤ s.line ∧
    s.line < c.firstLine + c.lines.length ∧ 1 ≤ s.column

theorem Failure.At.of_onward {c c' : Cursor} {e : Failure} (h : c.Onward c') (he : e.At c') :
    e.At c := by
  obtain ⟨s, rfl, hf, hl, hu, hc⟩ := he
  rw [h.filename] at hf
  rw [h.firstLine] at hl hu
  rw [h.lines] at hu
  exact ⟨s, rfl, hf, hl, hu, hc⟩

theorem Cursor.Inside.refused_at {c : Cursor} (h : c.Inside) (cause : SyntaxError.Cause) :
    (Failure.refused (c.error cause)).At c := by
  have h0 := h.nonneg
  have h1 := h.anchor_nonneg
  have h2 := h.anchor_lt
  refine ⟨c.error cause, rfl, rfl, ?_, ?_, ?_⟩ <;> simp only [error, lineNumber] <;> omega

namespace Production
variable {α β : Type}

/-- What holds after a run of a production. -/
def Ensures (p : Production α) (r : Reading) (Q : α → Reading → Prop)
    (E : Failure → Reading → Prop) : Prop :=
  match p.run r with
  | (.ok a, r') => Q a r'
  | (.error e, r') => E e r'

section Ensures
variable {p : Production α} {f : α → Production β} {r : Reading} {Q Q' : α → Reading → Prop}
  {R : β → Reading → Prop} {E E' : Failure → Reading → Prop}

theorem Ensures.imp (h : Ensures p r Q E) (hq : ∀ a r', Q a r' → Q' a r')
    (he : ∀ e r', E e r' → E' e r') : Ensures p r Q' E' := by
  unfold Ensures at h ⊢
  split at h
  · exact hq _ _ h
  · exact he _ _ h

theorem run_bind : (p >>= f).run r =
    match p.run r with
    | (.ok a, r') => (f a).run r'
    | (.error e, r') => (.error e, r') := by
  rw [ExceptT.run_bind]
  simp only [bind, StateT.bind]
  rcases ExceptT.run p r with ⟨_ | _, _⟩ <;> rfl

theorem run_cursor_bind {f : Cursor → Production β} :
    (cursor >>= f).run r = (f r.cursor).run r := by
  rw [run_bind]
  rfl

theorem run_get_bind {f : Reading → Production β} :
    (get >>= f).run r = (f r).run r := by
  rw [run_bind]
  rfl

theorem run_modifyCursor_bind {m : Cursor → Cursor} {f : Unit → Production β} :
    (modifyCursor m >>= f).run r = (f ()).run { r with cursor := m r.cursor } := by
  rw [run_bind]
  rfl

theorem ensures_bind : Ensures (p >>= f) r R E ↔ Ensures p r (fun a r' => Ensures (f a) r' R E) E := by
  unfold Ensures
  rw [run_bind]
  rcases ExceptT.run p r with ⟨_ | _, _⟩ <;> rfl

theorem Ensures.bind (hp : Ensures p r Q E) (hf : ∀ a r', Q a r' → Ensures (f a) r' R E) :
    Ensures (p >>= f) r R E :=
  ensures_bind.mpr (hp.imp hf fun _ _ he => he)

theorem ensures_get_bind {f : Reading → Production β} :
    Ensures (get >>= f) r R E ↔ Ensures (f r) r R E := by
  rw [ensures_bind]
  rfl

theorem ensures_cursor_bind {f : Cursor → Production β} :
    Ensures (cursor >>= f) r R E ↔ Ensures (f r.cursor) r R E := by
  rw [ensures_bind]
  rfl

theorem ensures_modify_bind {m : Reading → Reading} {f : Unit → Production β} :
    Ensures (modify m >>= f) r R E ↔ Ensures (f ()) (m r) R E := by
  rw [ensures_bind]
  rfl

end Ensures

/-- What holds after a run of a production that reads a part of a statement: it moves onward, and
fails by a refusal at a line of the source. -/
def Reads (p : Production α) (r : Reading) (Q : α → Reading → Prop) : Prop :=
  Ensures p r (fun a r' => r.Onward r' ∧ Q a r') (fun e r' => r.Onward r' ∧ e.At r.cursor)

/-- What a repetition of a loop ensures: the result, or the invariant with less of the source
left. -/
def Repeats (Inv Q : α → Reading → Prop) (r : Reading) : ForInStep α → Reading → Prop
  | .done a, r' => Q a r'
  | .yield a, r' => Inv a r' ∧ r'.cursor.remaining < r.cursor.remaining

section Reads
variable {p : Production α} {f : α → Production β} {r : Reading} {Q Q' : α → Reading → Prop}
  {R : β → Reading → Prop}

theorem Reads.imp (h : Reads p r Q) (hq : ∀ a r', r.Onward r' → Q a r' → Q' a r') :
    Reads p r Q' :=
  Ensures.imp h (fun a r' hr => ⟨hr.1, hq a r' hr.1 hr.2⟩) (fun _ _ he => he)

theorem Reads.bind (hp : Reads p r Q)
    (hf : ∀ a r', r.Onward r' → Q a r' → Reads (f a) r' R) : Reads (p >>= f) r R := by
  apply ensures_bind.mpr
  apply Ensures.imp hp
  · intro a r' hq
    obtain ⟨hon, hq⟩ := hq
    apply Ensures.imp (hf a r' hon hq)
    · exact fun _ _ hr => ⟨hon.trans hr.1, hr.2⟩
    · exact fun _ _ he => ⟨hon.trans he.1, he.2.of_onward hon.cursor⟩
  · exact fun _ _ he => he

theorem Reads.of_run {a : α} {s : Reading} (h : Reads p r Q) (hrun : p.run r = (.ok a, s)) :
    r.Onward s ∧ Q a s := by
  unfold Reads Ensures at h
  rwa [hrun] at h

/-- A part of a statement is followed by something that may do more. -/
theorem Reads.bind_ensures (hp : Reads p r Q)
    (hf : ∀ a r', r.Onward r' → Q a r' → Ensures (f a) r' R fun e _ => e.At r'.cursor) :
    Ensures (p >>= f) r R fun e _ => e.At r.cursor := by
  apply ensures_bind.mpr
  apply Ensures.imp hp
  · intro a r' hq
    obtain ⟨hon, hq⟩ := hq
    exact (hf a r' hon hq).imp (fun _ _ hr => hr) fun _ _ he => he.of_onward hon.cursor
  · exact fun _ _ he => he.2

theorem Reads.pure {a : α} (h : r.cursor.Inside) (hq : Q a r) : Reads (pure a) r Q :=
  ⟨.refl h, hq⟩

theorem reads_cursor_bind {f : Cursor → Production β} :
    Reads (cursor >>= f) r R ↔ Reads (f r.cursor) r R := ensures_cursor_bind

theorem reads_get_bind {f : Reading → Production β} :
    Reads (get >>= f) r R ↔ Reads (f r) r R := ensures_get_bind

theorem reads_onLine_bind {a : α} : Reads (onLine (.ok a) >>= f) r R ↔ Reads (f a) r R := by
  unfold Reads
  rw [ensures_bind]
  rfl

theorem reads_modifyCursor {g : Cursor → Cursor} (hon : r.cursor.Onward (g r.cursor)) :
    Reads (modifyCursor g) r fun _ r' => r' = { r with cursor := g r.cursor } :=
  ⟨⟨hon, rfl, rfl⟩, rfl⟩

theorem reads_setCursor {c : Cursor} (hon : r.cursor.Onward c) :
    Reads (setCursor c) r fun _ r' => r' = { r with cursor := c } :=
  ⟨⟨hon, rfl, rfl⟩, rfl⟩

theorem reads_record {entry : LogRecord} (h : r.cursor.Inside) :
    Reads (record entry) r fun _ r' => r' = { r with log := r.log ++ [entry] } :=
  ⟨⟨.refl h, rfl, rfl⟩, rfl⟩

theorem reads_refuse {cause : SyntaxError.Cause} (h : r.cursor.Inside) :
    Reads (refuse (r.cursor.error cause)) r Q :=
  ⟨.refl h, h.refused_at cause⟩

/-- A line that is entered is read from its start. -/
theorem reads_nextLine {line : List Char} (hp : r.cursor.peekLine = some line) :
    Reads nextLine r fun entered r' => entered = true ∧ r' = { r with cursor := r.cursor.nextLine.2 } := by
  unfold nextLine
  rw [reads_cursor_bind]
  apply Reads.bind (reads_setCursor (Cursor.onward_nextLine hp).1)
  intro _ r' hon' heq
  subst heq
  exact Reads.pure hon'.inside ⟨congrArg Prod.fst (Cursor.nextLine_eq hp), rfl⟩

/-- A production that is tried does not fail. It gives its value, or nothing when it is refused. -/
theorem ensures_attempt (hp : Reads p r Q) :
    Ensures (attempt p) r (fun a r' => r.Onward r' ∧ ∀ b, a = some b → Q b r')
      (fun _ _ => False) := by
  unfold Reads Ensures at hp
  unfold Ensures attempt
  rw [ExceptT.run_mk]
  rcases heq : p.run r with ⟨e | a, r'⟩ <;> rw [heq] at hp
  · obtain ⟨hon, s, rfl, _⟩ := hp
    exact ⟨⟨hon.cursor, hon.indent, hon.outline⟩, fun _ hb => by simp at hb⟩
  · refine ⟨hp.1, fun b hb => ?_⟩
    obtain rfl := Option.some.inj hb
    exact hp.2

/-- Induction along a loop. A repetition either ends it or leaves less of the source. -/
theorem reads_iterate {step : β → Production (ForInStep β)} {R : β → Reading → Prop}
    (Inv : β → Reading → Prop)
    (hstep : ∀ b r₁, r.Onward r₁ → Inv b r₁ → Reads (step b) r₁ (Repeats Inv R r₁)) :
    ∀ b r₁, r.Onward r₁ → Inv b r₁ → Reads (repeatWhile step b) r₁ R := by
  intro b r₁ hon hinv
  unfold repeatWhile Reads Ensures
  rw [ExceptT.run_mk]
  induction hn : r₁.cursor.remaining using Nat.strongRecOn generalizing b r₁ with
  | ind n ih =>
    subst hn
    have hs := hstep b r₁ hon hinv
    unfold Reads Ensures at hs
    unfold iterate
    split at hs <;> rename_i heq <;> rw [heq]
    · obtain ⟨hon₂, hs⟩ := hs
      rename_i s r₂
      cases s with
      | done b' => exact ⟨hon₂, hs⟩
      | yield b' =>
        obtain ⟨hinv₂, hlt⟩ := hs
        have hrec := ih _ hlt b' r₂ (hon.trans hon₂) hinv₂ rfl
        simp only [hlt, if_true]
        rcases heq₂ : iterate step b' r₂ with ⟨_ | _, r'⟩ <;> rw [heq₂] at hrec
        · exact ⟨hon₂.trans hrec.1, hrec.2.of_onward hon₂.cursor⟩
        · exact ⟨hon₂.trans hrec.1, hrec.2⟩
    · exact hs

end Reads

end Production

namespace Reading

/-- The reading so many characters further on in its line. -/
def skip (n : Nat) (r : Reading) : Reading := { r with cursor := r.cursor.skip n }

theorem skip_zero {r : Reading} (h : r.cursor.Inside) : r.skip 0 = r := by
  have hle := h.le_length
  have hcolumn : min (r.cursor.column + (0 : Nat)) (r.cursor.line.length : Int) =
      r.cursor.column := by omega
  unfold skip Cursor.skip
  rw [hcolumn]

theorem skip_skip (m n : Nat) (r : Reading) : (r.skip m).skip n = r.skip (m + n) := by
  unfold skip Cursor.skip
  congr 2
  dsimp only
  push_cast
  omega

end Reading

namespace Production
variable {α β : Type} {r : Reading} {Q : α → Reading → Prop} (h : r.cursor.Inside)
include h

theorem run_eat? (p : Pattern) : (eat? p).run r =
    match p r.cursor.rest with
    | none => (.ok none, r)
    | some m => (.ok (some m), r.skip m.length) := by
  unfold eat?
  rw [run_cursor_bind, Cursor.eat?_eq h]
  cases p r.cursor.rest <;> rfl

theorem run_eat (p : Pattern) : (eat p).run r =
    match p r.cursor.rest with
    | none => (.ok false, r)
    | some m => (.ok true, r.skip m.length) := by
  unfold eat
  rw [run_bind, run_eat? h]
  cases p r.cursor.rest <;> rfl

theorem run_expected (what : Expected) : (expected what : Production α).run r =
    (.error (.refused (r.cursor.error (.unexpected r.cursor.rest.head? what))), r) := by
  unfold expected
  rw [run_cursor_bind, Cursor.unexpected_eq h]
  rfl

theorem run_expected_bind {f : α → Production β} (what : Expected) : (expected what >>= f).run r =
    (.error (.refused (r.cursor.error (.unexpected r.cursor.rest.head? what))), r) := by
  rw [run_bind, run_expected h]

omit h in
theorem run_advanceTo (n : Nat) :
    (advanceTo (r.cursor.column + n)).run r = (.ok (), r.skip n) := by
  unfold advanceTo
  rw [run_cursor_bind, Cursor.advanceTo_of_le (by omega)]
  rfl

theorem run_skipIndent_bind {f : Unit → Production β} : (skipIndent >>= f).run r =
    (f ()).run (r.skip (Pattern.runLength Text.isIndent r.cursor.rest)) := by
  have hskip : r.cursor.skipIndent =
      r.cursor.skip (Pattern.runLength Text.isIndent r.cursor.rest) := by
    rw [Cursor.skipIndent, Cursor.inLine_eq h]
  unfold skipIndent
  rw [run_modifyCursor_bind, hskip]
  rfl

theorem run_peekChar_bind {f : Option Char → Production β} :
    (peekChar >>= f).run r = (f r.cursor.rest.head?).run r := by
  unfold peekChar
  rw [bind_assoc, run_cursor_bind, Cursor.peekChar_eq h]
  rfl

theorem reads_eat? (p : Pattern) : Reads (eat? p) r fun m r' =>
    (m = none ∧ p r.cursor.rest = none ∧ r' = r) ∨
      ∃ m', m = some m' ∧ p r.cursor.rest = some m' ∧ r' = r.skip m'.length := by
  unfold eat?
  rw [reads_cursor_bind, Cursor.eat?_eq h]
  cases hp : p r.cursor.rest with
  | none => exact Reads.pure h (Or.inl ⟨rfl, rfl, rfl⟩)
  | some m =>
    apply Reads.bind (reads_setCursor (Cursor.onward_skip h m.length))
    intro _ r' hon heq
    subst heq
    exact Reads.pure hon.inside (Or.inr ⟨m, rfl, rfl, rfl⟩)

theorem reads_eat (p : Pattern) : Reads (eat p) r fun matched r' =>
    (matched = false ∧ p r.cursor.rest = none ∧ r' = r) ∨
      ∃ m, matched = true ∧ p r.cursor.rest = some m ∧ r' = r.skip m.length := by
  apply Reads.bind (reads_eat? h p)
  intro _ r' hon hq
  rcases hq with ⟨rfl, hp, rfl⟩ | ⟨m, rfl, hp, rfl⟩
  · exact Reads.pure h (Or.inl ⟨rfl, hp, rfl⟩)
  · exact Reads.pure hon.inside (Or.inr ⟨m, rfl, hp, rfl⟩)

theorem reads_peekChar_bind {f : Option Char → Production β} {R : β → Reading → Prop} :
    Reads (peekChar >>= f) r R ↔ Reads (f r.cursor.rest.head?) r R := by
  unfold peekChar
  rw [bind_assoc, reads_cursor_bind, Cursor.peekChar_eq h, reads_onLine_bind]

theorem reads_expected (what : Expected) : Reads (expected what) r Q := by
  unfold expected
  rw [reads_cursor_bind, Cursor.unexpected_eq h, reads_onLine_bind]
  exact reads_refuse h

theorem reads_expected_bind {f : α → Production β} {R : β → Reading → Prop} (what : Expected) :
    Reads (expected what >>= f) r R :=
  Reads.bind (reads_expected (Q := fun _ _ => False) h what) fun _ _ _ hf => hf.elim

theorem reads_advanceTo {target : Int} (ahead : r.cursor.column ≤ target) :
    Reads (advanceTo target) r fun _ r' => r' =
      { r with cursor := { r.cursor with column := min target r.cursor.line.length } } := by
  unfold advanceTo
  rw [reads_cursor_bind, Cursor.advanceTo_of_le ahead]
  have hle := h.le_length
  exact reads_setCursor (Cursor.onward_column h (by omega) (Int.min_le_right _ _))

theorem reads_skipIndent : Reads skipIndent r fun _ r' =>
    r' = r.skip (Pattern.runLength Text.isIndent r.cursor.rest) := by
  have hs : r.cursor.skipIndent = r.cursor.skip (Pattern.runLength Text.isIndent r.cursor.rest) := by
    unfold Cursor.skipIndent
    rw [Cursor.inLine_eq h]
  unfold skipIndent Reading.skip
  rw [← hs]
  apply reads_modifyCursor
  rw [hs]
  exact Cursor.onward_skip h _

theorem reads_restOfLine : Reads restOfLine r fun text r' =>
    text = r.cursor.rest ∧ r' = { r with cursor := r.cursor.skipRest } := by
  unfold restOfLine
  rw [reads_cursor_bind]
  apply Reads.bind (reads_setCursor (Cursor.onward_skipRest h))
  intro _ r' hon heq
  subst heq
  exact Reads.pure hon.inside ⟨rfl, rfl⟩

theorem reads_repeatWhile {step : β → Production (ForInStep β)} {R : β → Reading → Prop} {b : β}
    (Inv : β → Reading → Prop) (start : Inv b r)
    (hstep : ∀ b r₁, r.Onward r₁ → Inv b r₁ → Reads (step b) r₁ (Repeats Inv R r₁)) :
    Reads (repeatWhile step b) r R :=
  reads_iterate Inv hstep b r (.refl h) start

end Production

end TemplateTree
