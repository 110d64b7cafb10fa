import TemplateTree.Proofs.Runs

/-!
# Units of indentation

The unit of a template is a number of equal blanks, and once it is known it stays. A tracker that
knows no unit yet takes the same indentations as one that knows the unit it will find.
-/

set_option autoImplicit false

namespace TemplateTree

theorem Pattern.head_of_run_eq_nil {isIt : Char → Bool} {line : List Char} (h : run isIt line = []) :
    ∀ c ∈ line.head?, isIt c = false := by
  intro c hc
  cases line with
  | nil => cases hc
  | cons d rest =>
    obtain rfl := Option.some.inj hc
    by_contra hd
    have hcons : run isIt (d :: rest) = d :: run isIt rest :=
      List.takeWhile_cons_of_pos (by simpa using hd)
    simp [h] at hcons

namespace Indent
variable {t t' s : Indent} {unit : Option IndentUnit} {indent line : List Char} {atStart : Bool}
  {level : Nat}

/-- The unit is some blanks of an indentation. -/
def Regular (t : Indent) : Prop := ∀ u ∈ t.unit, 0 < u.width ∧ Text.isIndent u.char

/-- An indentation leaves the unit as it is, or it is the unit. -/
theorem unit_check (indent : List Char) (atStart : Bool) (t : Indent) :
    (t.check indent atStart).2.unit = t.unit ∨
      t.unit = none ∧ ∃ char others, indent = char :: others ∧
        (t.check indent atStart).2.unit = some ⟨char, indent.length⟩ := by
  unfold check
  cases indent with
  | nil => exact Or.inl rfl
  | cons char others =>
    dsimp only
    split
    · exact Or.inl rfl
    split
    · exact Or.inl rfl
    split
    · rename_i hunit
      exact Or.inr ⟨hunit, char, others, rfl, rfl⟩
    · split
      · exact Or.inl rfl
      · exact Or.inl rfl

theorem Regular.check (h : t.Regular) (line : List Char) (atStart : Bool) :
    (t.check (Pattern.run Text.isIndent line) atStart).2.Regular := by
  rcases unit_check (Pattern.run Text.isIndent line) atStart t with hsame | ⟨-, char, others, hcons, hset⟩
  · unfold Regular
    rw [hsame]
    exact h
  · intro u hu
    rw [hset] at hu
    obtain rfl := Option.some.inj hu
    have hmem : char ∈ Pattern.run Text.isIndent line := by simp [hcons]
    refine ⟨?_, List.mem_takeWhile_imp hmem⟩
    rw [hcons]
    exact Nat.succ_pos _

/-- A unit that is known stays. -/
theorem unit_of_check_ok (h : t.check indent atStart = (.ok level, s)) :
    t.unit = none ∨ t.unit = s.unit := by
  have hunit := unit_check indent atStart t
  rw [h] at hunit
  rcases hunit with hsame | ⟨hnone, -⟩
  · exact Or.inr hsame.symm
  · exact Or.inl hnone

/-- A line that is not indented ends every block. -/
theorem Regular.not_inBlock (h : t.Regular) (hblank : Text.isBlankLine line = false)
    (hindent : Pattern.run Text.isIndent line = []) : Production.inBlock t line = false := by
  have hhead := Pattern.head_of_run_eq_nil hindent
  unfold Production.inBlock
  rw [hblank, Bool.false_or, Bool.and_eq_false_iff]
  unfold below
  cases hunit : t.unit with
  | none =>
    cases line with
    | nil => exact Or.inl rfl
    | cons c rest =>
      dsimp only
      rw [hhead c rfl]
      exact Or.inl rfl
  | some u =>
    -- a line of the block starts with the blank of the unit, as the unit is not empty
    obtain ⟨hwidth, hchar⟩ := h u hunit
    refine Or.inr ?_
    have hpositive : 0 < ((u.width : Int) * (t.level + 1)).toNat := by
      have hmul : (0 : Int) < u.width * (t.level + 1) := Int.mul_pos (by omega) (by omega)
      omega
    obtain ⟨n, hn⟩ := Nat.exists_eq_succ_of_ne_zero hpositive.ne'
    dsimp only
    rw [hn, List.replicate_succ]
    cases line with
    | nil => rfl
    | cons c rest =>
      have hne : u.char ≠ c := by
        rintro rfl
        simp [hhead u.char rfl] at hchar
      simp [List.isPrefixOf, hne]

/-- Only the unit and the level of the last line count. -/
theorem check_eq (hunit : t'.unit = t.unit) (hlevel : t'.level = t.level) (indent : List Char)
    (atStart : Bool) : t'.check indent atStart = t.check indent atStart := by
  obtain ⟨u, l, p⟩ := t
  obtain ⟨u', l', p'⟩ := t'
  obtain rfl : u' = u := hunit
  obtain rfl : l' = l := hlevel
  rfl

/-- So many units are an indentation of that level, when it is not too deep. -/
theorem check_replicate {u : IndentUnit} (hunit : t.unit = some u)
    (hne : List.replicate (u.width * level) u.char ≠ []) (hle : level ≤ t.level + 1) :
    t.check (List.replicate (u.width * level) u.char) false = (.ok level, ⟨some u, level, t.level⟩) := by
  have hpositive : 0 < u.width * level := by
    have hlength := List.length_pos_iff.mpr hne
    rwa [List.length_replicate] at hlength
  have hwidth : 0 < u.width := Nat.pos_of_mul_pos_right hpositive
  have hlevel : levelIn u t.level u.char (u.width * level) = .ok level := by
    unfold levelIn
    rw [Nat.mul_mod_right, Nat.mul_div_cancel_left _ hwidth]
    simp [hle]
  obtain ⟨n, hn⟩ := Nat.exists_eq_succ_of_ne_zero hpositive.ne'
  rw [hn] at hlevel ⊢
  have hothers : (List.replicate n u.char).any (· != u.char) = false := by simp
  simp only [check, List.replicate_succ, hunit, Bool.false_eq_true, if_false, hothers,
    List.length_cons, List.length_replicate, hlevel]

/-- Trackers that know the same unit, or of which only the second one knows it, take the same
indentations. -/
theorem check_or (hunit : t'.unit = t.unit.or unit) (hlevel : t'.level = t.level)
    (h : t.check indent atStart = (.ok level, s))
    (hsame : unit = none ∨ s.unit = none ∨ s.unit = unit) :
    ∃ s', t'.check indent atStart = (.ok level, s') ∧ s'.unit = s.unit.or unit := by
  have heq : t'.unit = t.unit → ∃ s', t'.check indent atStart = (.ok level, s') ∧ s'.unit = s.unit := by
    intro hu
    exact ⟨s, (check_eq hu hlevel indent atStart).trans h, rfl⟩
  rcases hsame with rfl | hsame
  · simpa using heq (by simpa using hunit)
  obtain ⟨rfl, rfl, rfl⟩ | ⟨rfl, hle, hne, u, rfl, hu, rfl⟩ := check_ok h
  · exact ⟨_, rfl, hunit⟩
  · -- the first tracker knows the unit by now, so it is the one that the second knew before
    obtain rfl : unit = some u := (hsame.resolve_left nofun).symm
    have hsecond : t'.unit = some u := by
      rcases hu with hu | ⟨hu, -⟩ <;> simp [hunit, hu]
    rw [← hlevel] at hle
    exact ⟨_, check_replicate hsecond hne hle, rfl⟩

end Indent

/-- Whatever lines were entered, the unit is some blanks of an indentation. -/
theorem Run.regular {g : Grammar} {source filename : String} {firstLine : Int} {es : List Entry}
    {r : Reading} (h : Run g (.opening g source filename firstLine) es r) : r.indent.Regular := by
  induction h with
  | start => nofun
  | @step es said r₁ r₂ r₃ before reads places ih =>
    cases advances_of_run reads places with
    | blank entered indent => rwa [indent]
    | @statement line _ _ _ _ _ entered stated inserts reading =>
      have hcheck := ih.check line r₁.outline.last.isNone
      rw [stated.check] at hcheck
      rw [reading]
      exact hcheck

end TemplateTree
