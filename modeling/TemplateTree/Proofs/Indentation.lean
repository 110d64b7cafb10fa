import TemplateTree.Proofs.Units

/-!
# Runs of a tracker

A tracker is asked again and again, and may refuse any of the indentations it is given. Its unit is
the first indentation that it took and that is not empty, and its level is the one of the last
indentation that it took. So what it takes next is a matter of the indentations it has taken.
-/

set_option autoImplicit false

namespace TemplateTree

namespace Indent
variable {t t' : Indent} {indent : List Char} {atStart : Bool} {level : Nat}

/-- A refusal changes neither the unit nor the level. -/
theorem check_error {cause : SyntaxError.Cause} (h : t.check indent atStart = (.error cause, t')) :
    t' = { t with previous := t.level } := by
  unfold check at h
  cases indent with
  | nil => simp at h
  | cons char others =>
    dsimp only at h
    split at h
    · exact (Prod.mk.inj h).2.symm
    split at h
    · exact (Prod.mk.inj h).2.symm
    split at h
    · simp at h
    · split at h
      · exact (Prod.mk.inj h).2.symm
      · simp at h

/-- Something that is asked of a tracker: an indentation, and whether nothing was inserted before. -/
structure Call where
  indent : List Char
  atStart : Bool
  deriving DecidableEq, Repr

/-- A tracker, and the indentations that it took with the levels it gave them, in order. -/
structure History where
  tracker : Indent
  taken : List (List Char × Nat)
  deriving DecidableEq, Repr

namespace History

def call (h : History) (c : Call) : History :=
  match h.tracker.check c.indent c.atStart with
  | (.ok level, t) => ⟨t, h.taken ++ [(c.indent, level)]⟩
  | (.error _, t) => ⟨t, h.taken⟩

def calls (h : History) (cs : List Call) : History := cs.foldl call h

def start : History := ⟨.start, []⟩

end History

/-- The unit that indentations set: the first of them that is not empty. -/
def firstUnit (taken : List (List Char × Nat)) : Option IndentUnit :=
  taken.findSome? fun (indent, _) => indent.head?.map fun char => ⟨char, indent.length⟩

/-- The level of the last line, which is none before the first line. -/
def lastLevel (taken : List (List Char × Nat)) : Nat := (taken.getLast?.map Prod.snd).getD 0

/-- What a tracker takes: an empty indentation anywhere, and below the start of the document so many
units, in one character, that the line is at most one level deeper than the last one. -/
def Fits (unit : Option IndentUnit) (last : Nat) (indent : List Char) (atStart : Bool) : Prop :=
  indent = [] ∨ atStart = false ∧ ∃ char, (∀ c ∈ indent, c = char) ∧
    ∀ u ∈ unit, char = u.char ∧ ∃ level ≤ last + 1, indent.length = u.width * level

theorem fits_of_check (h : t.check indent atStart = (.ok level, t')) :
    Fits t.unit t.level indent atStart := by
  obtain ⟨rfl, -⟩ | ⟨rfl, hle, -, u, rfl, hunit, -⟩ := check_ok h
  · exact Or.inl rfl
  refine Or.inr ⟨rfl, u.char, fun c hc => List.eq_of_mem_replicate hc, ?_⟩
  intro v hv
  rcases hunit with hunit | ⟨hunit, -⟩
  · obtain rfl : u = v := Option.some.inj (hunit.symm.trans hv)
    exact ⟨rfl, level, hle, List.length_replicate⟩
  · rw [hunit] at hv
    cases hv

theorem check_of_fits (h : Fits t.unit t.level indent atStart) :
    ∃ level t', t.check indent atStart = (.ok level, t') := by
  rcases h with rfl | ⟨rfl, char, hchar, hfits⟩
  · exact ⟨_, _, rfl⟩
  cases indent with
  | nil => exact ⟨_, _, rfl⟩
  | cons first others =>
    obtain rfl := hchar first List.mem_cons_self
    cases hunit : t.unit with
    | none =>
      have hothers : others.any (· != first) = false := by
        simpa using fun c hc => hchar c (List.mem_cons_of_mem _ hc)
      exact ⟨1, ⟨some ⟨first, others.length + 1⟩, 1, t.level⟩, by simp [check, hunit, hothers]⟩
    | some u =>
      obtain ⟨rfl, level, hle, hlength⟩ := hfits u hunit
      have heq : u.char :: others = List.replicate (u.width * level) u.char :=
        List.eq_replicate_iff.mpr ⟨hlength, hchar⟩
      rw [heq]
      exact ⟨_, _, check_replicate hunit (heq ▸ List.cons_ne_nil _ _) hle⟩

/-- An indentation that was taken is the one of the tracker's level. -/
theorem below_of_check (h : t.check indent atStart = (.ok level, t')) : t'.below 0 [] = indent := by
  obtain ⟨rfl, -, rfl⟩ | ⟨-, -, -, u, rfl, -, rfl⟩ := check_ok h
  · unfold below
    cases t.unit with
    | none => rfl
    | some u => simp
  · have hwidth : ((u.width : Int) * (level + 0)).toNat = u.width * level := by
      rw [Int.add_zero, ← Int.natCast_mul, Int.toNat_natCast]
    simp only [below, hwidth]

namespace History
variable {h : History}

/-- What a tracker knows is what it took. -/
structure Tracked (h : History) : Prop where
  unit : h.tracker.unit = firstUnit h.taken
  level : h.tracker.level = lastLevel h.taken
  flat : h.tracker.unit = none → h.tracker.level = 0

theorem Tracked.start : start.Tracked := ⟨rfl, rfl, fun _ => rfl⟩

theorem lastLevel_concat (taken : List (List Char × Nat)) :
    lastLevel (taken ++ [(indent, level)]) = level := by
  simp [lastLevel]

theorem firstUnit_concat (taken : List (List Char × Nat)) :
    firstUnit (taken ++ [(indent, level)]) =
      (firstUnit taken).or (indent.head?.map fun char => ⟨char, indent.length⟩) := by
  simp [firstUnit, List.findSome?_append]

theorem Tracked.call (hh : h.Tracked) (c : Call) : (h.call c).Tracked := by
  obtain ⟨indent, atStart⟩ := c
  unfold History.call
  rcases hc : h.tracker.check indent atStart with ⟨cause | level, t⟩
  · obtain rfl := check_error hc
    exact ⟨hh.unit, hh.level, hh.flat⟩
  dsimp only
  obtain ⟨rfl, rfl, rfl⟩ | ⟨-, -, hne, u, rfl, hunit, rfl⟩ := check_ok hc
  · refine ⟨?_, (lastLevel_concat h.taken).symm, fun _ => rfl⟩
    rw [firstUnit_concat, ← hh.unit]
    exact (Option.or_none).symm
  · refine ⟨?_, (lastLevel_concat h.taken).symm, nofun⟩
    rw [firstUnit_concat, ← hh.unit]
    rcases hunit with hunit | ⟨hunit, rfl⟩
    · rw [hunit]
      rfl
    · -- the first indentation that is not empty becomes the unit
      have hwidth : u.width ≠ 0 := by
        intro hzero
        simp [hzero] at hne
      rw [hunit, Nat.mul_one, List.length_replicate, List.head?_replicate, if_neg hwidth]
      rfl

theorem Tracked.calls (hh : h.Tracked) (cs : List Call) : (h.calls cs).Tracked := by
  induction cs generalizing h with
  | nil => exact hh
  | cons c cs ih => exact ih (hh.call c)

theorem unit_call {u : IndentUnit} (hu : h.tracker.unit = some u) (c : Call) :
    (h.call c).tracker.unit = some u := by
  have hcheck := unit_check c.indent c.atStart h.tracker
  have hcall : (h.call c).tracker = (h.tracker.check c.indent c.atStart).2 := by
    unfold History.call
    split
    · rename_i heq
      rw [heq]
    · rename_i heq
      rw [heq]
  rw [hcall]
  rcases hcheck with hsame | ⟨hnone, -⟩
  · exact hsame.trans hu
  · simp [hnone] at hu

theorem unit_calls {u : IndentUnit} (hu : h.tracker.unit = some u) (cs : List Call) :
    (h.calls cs).tracker.unit = some u := by
  induction cs generalizing h with
  | nil => exact hu
  | cons c cs ih => exact ih (unit_call hu c)

/-- After any calls the tracker knows the first indentation that it took and the level of the last
one, and keeps the unit; and what it takes next is what fits to those. -/
theorem next_call (before after : List Call) (indent : List Char) (atStart : Bool) :
    (start.calls before).tracker.unit = firstUnit (start.calls before).taken ∧
    (∀ u ∈ (start.calls before).tracker.unit, (start.calls (before ++ after)).tracker.unit = some u) ∧
    ((start.calls before).tracker.unit = none → (start.calls before).tracker.level = 0) ∧
    match (start.calls before).tracker.check indent atStart with
    | (.ok level, t) =>
      Fits (start.calls before).tracker.unit (lastLevel (start.calls before).taken) indent atStart ∧
        t.level = level ∧ t.below 0 [] = indent ∧
          t.previous = lastLevel (start.calls before).taken
    | (.error _, t) =>
      ¬ Fits (start.calls before).tracker.unit (lastLevel (start.calls before).taken) indent atStart ∧
        t.unit = (start.calls before).tracker.unit ∧ t.level = (start.calls before).tracker.level := by
  have hh := Tracked.start.calls before
  refine ⟨hh.unit, ?_, hh.flat, ?_⟩
  · intro u hu
    unfold History.calls
    rw [List.foldl_append]
    exact unit_calls hu after
  rw [← hh.level]
  rcases hc : (start.calls before).tracker.check indent atStart with ⟨cause | level, t⟩
  · obtain rfl := check_error hc
    refine ⟨fun hfits => ?_, rfl, rfl⟩
    obtain ⟨level, t', hok⟩ := check_of_fits hfits
    simp [hc] at hok
  · obtain ⟨hlevel, hprevious⟩ := check_levels hc
    exact ⟨fits_of_check hc, hlevel, below_of_check hc, hprevious⟩

example : start.calls
    [⟨[' '], true⟩, ⟨[' ', ' '], false⟩, ⟨['\t'], false⟩, ⟨[' ', ' ', ' ', ' '], false⟩] =
    ⟨⟨some ⟨' ', 2⟩, 2, 1⟩, [([' ', ' '], 1), ([' ', ' ', ' ', ' '], 2)]⟩ := by decide

end History

end Indent

end TemplateTree
