import TemplateTree.Proofs.Paths

/-!
# Outlines

While statements come in whose levels rise by at most one, the open ancestors are the depths above
the level of the last statement. So adding a statement asks two questions only: whether one more
level is allowed, and whether the last statement one level up takes nested ones.

From this, a whole sequence of statements is added or refused by what the sequence itself says, and
an outline that took all of them lists them as they came.
-/

set_option autoImplicit false

namespace TemplateTree

namespace Outline

open Node

/-- An outline whose last statement has the given level. -/
structure AtLevel (o : Outline) (level : Nat) : Prop where
  ancestors : o.ancestors = (List.range level).reverse
  parent : o.parent = level
  last : o.last = some (level + 1) ∨ o.last = none ∧ level = 0

/-- The outline with the ancestors of a level open, and no deeper ones. -/
def openedTo (level : Nat) (o : Outline) : Outline :=
  { o with ancestors := (List.range level).reverse, parent := level }

def withStatement (statement : Node) (level : Nat) (o : Outline) : Outline :=
  { o.openedTo level with root := o.root.addChildAt level statement, last := some (level + 1) }

section Steps
variable {o o' : Outline} {statement : Node} {level previous : Nat}

theorem atLevel_start (root : Node) (maxDepth : Value) : (start root maxDepth).AtLevel 0 :=
  ⟨rfl, rfl, Or.inr ⟨rfl, rfl⟩⟩

theorem AtLevel.depth_eq (h : o.AtLevel level) : o.depth = level := by
  rw [depth, h.ancestors, List.length_reverse, List.length_range]

theorem reverse_range_succ (level : Nat) :
    (List.range (level + 1)).reverse = level :: (List.range level).reverse := by
  rw [List.range_succ, List.reverse_append]
  rfl

theorem ascend_eq (count : Nat) (ha : o.ancestors = (List.range (level + count)).reverse)
    (hp : o.parent = level + count) : ascend count o = (.ok (), o.openedTo level) := by
  induction count generalizing o with
  | zero =>
    rw [Nat.add_zero] at ha hp
    rw [ascend, openedTo, ← ha, ← hp]
  | succ count ih =>
    rw [← Nat.add_assoc, reverse_range_succ] at ha
    rw [ascend, ha]
    exact ih rfl rfl

theorem descend_eq (h : o.AtLevel previous) (hlast : o.last ≠ none) : o.descend =
    if o.hasRoom then (.ok (), o.openedTo (previous + 1))
    else (.error (.illegal (.tooManyLevels o.maxDepth)), o) := by
  obtain hlast' | ⟨hnone, _⟩ := h.last
  · simp only [descend, hlast', openedTo, reverse_range_succ, h.ancestors, h.parent]
  · exact absurd hnone hlast

/-- A statement at most one level below the last one is refused for its depth, or goes to the node
that is open at its level. -/
theorem insert_eq (h : o.AtLevel previous) (hle : level ≤ previous + 1)
    (hfirst : o.last = none → level = 0) : o.insert statement level previous =
    if previous < level ∧ o.hasRoom = false then (.error (.illegal (.tooManyLevels o.maxDepth)), o)
    else (o.openedTo level).attach statement := by
  unfold insert
  by_cases hlt : previous < level
  · obtain rfl : level = previous + 1 := by omega
    have hlast : o.last ≠ none := fun hnone => by simpa using hfirst hnone
    rw [if_pos (by omega), descend_eq h hlast]
    cases hroom : o.hasRoom <;> simp
  · have hcount : ((previous : Int) - level).toNat = previous - level := by omega
    have hsplit : level + (previous - level) = previous := by omega
    have hascend : ascend (previous - level) o = (.ok (), o.openedTo level) := by
      apply ascend_eq <;> rw [hsplit]
      · exact h.ancestors
      · exact h.parent
    rw [if_neg (by omega), hcount, hascend]
    simp [hlt]

theorem attach_eq : (o.openedTo level).attach statement =
    match refusal? (o.root.lastAt level) with
    | some cause => (.error (.illegal cause), o.openedTo level)
    | none => (.ok (), o.withStatement statement level) := rfl

theorem insert_ok (h : o.AtLevel previous) (hle : level ≤ previous + 1)
    (hfirst : o.last = none → level = 0)
    (hok : o.insert statement level previous = (.ok (), o')) :
    (level ≤ previous ∨ o.hasRoom) ∧ (o.root.lastAt level).Accepts ∧
      o' = o.withStatement statement level := by
  rw [insert_eq h hle hfirst, attach_eq] at hok
  split at hok
  · simp at hok
  rename_i hroom
  split at hok
  · simp at hok
  rename_i hopen
  refine ⟨?_, hopen, (Prod.mk.inj hok).2.symm⟩
  by_cases hlt : previous < level
  · exact Or.inr (by simpa [hlt] using hroom)
  · exact Or.inl (Nat.not_lt.mp hlt)

/-- A refusal is one of nesting: it closes no level that is not open and finds a statement above. -/
theorem insert_error {refusal : Refusal} (h : o.AtLevel previous) (hle : level ≤ previous + 1)
    (hfirst : o.last = none → level = 0)
    (herror : o.insert statement level previous = (.error refusal, o')) :
    (previous < level ∧ o.hasRoom = false ∧ refusal = .illegal (.tooManyLevels o.maxDepth)) ∨
      ∃ cause, refusal = .illegal cause ∧ refusal? (o.root.lastAt level) = some cause := by
  rw [insert_eq h hle hfirst, attach_eq] at herror
  split at herror
  · rename_i hroom
    exact Or.inl ⟨hroom.1, hroom.2, (Except.error.inj (Prod.mk.inj herror).1).symm⟩
  split at herror
  · rename_i cause hcause
    exact Or.inr ⟨cause, (Except.error.inj (Prod.mk.inj herror).1).symm, hcause⟩
  · simp at herror

/-- Every reason to refuse a nested statement is one of nesting. -/
theorem errorClass_refusal? {n : Node} {cause : SyntaxError.Cause} (h : refusal? n = some cause) :
    cause.errorClass = .nesting := by
  unfold refusal? at h
  split at h
  · rw [← Option.some.inj h]
    rfl
  split at h
  · split at h <;> rw [← Option.some.inj h] <;> rfl
  split at h
  · rw [← Option.some.inj h]
    rfl
  · simp at h

/-- A node that refuses nested statements stands above them. -/
theorem refusal?_ne_nothingAbove {n : Node} : refusal? n ≠ some .nothingAbove := by
  unfold refusal?
  split
  · simp
  split
  · split <;> simp
  split <;> simp

end Steps

/-- An outline whose last statement has the given level and stands at the end of a path. -/
structure Grown (Q : Node → Prop) (o : Outline) (level : Nat) : Prop where
  atLevel : o.AtLevel level
  path : ∀ depth, o.last = some depth → o.root.PathTo Q depth

section Grown
variable {Q : Node → Prop} {o : Outline} {statement : Node} {level previous : Nat}

theorem grown_start (root : Node) (maxDepth : Value) : Grown Q (start root maxDepth) 0 :=
  ⟨atLevel_start root maxDepth, fun _ hd => by simp [start] at hd⟩

theorem Grown.path_parent (h : Grown Q o previous) (hle : level ≤ previous + 1)
    (hfirst : o.last = none → level = 0) : o.root.PathTo Q level := by
  rcases h.atLevel.last with hlast | ⟨hnone, _⟩
  · exact (h.path _ hlast).le hle
  · rw [hfirst hnone]
    exact .here _

theorem Grown.withStatement (hq : Nests Q) (h : Grown Q o previous) (hle : level ≤ previous + 1)
    (hfirst : o.last = none → level = 0) (hend : Q (o.root.lastAt level)) :
    Grown Q (o.withStatement statement level) level where
  atLevel := ⟨rfl, rfl, Or.inl rfl⟩
  path := by
    intro depth hd
    obtain rfl := Option.some.inj hd
    exact (h.path_parent hle hfirst).addChildAt hq hend statement

end Grown

end Outline

end TemplateTree
