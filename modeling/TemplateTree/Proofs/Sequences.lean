import TemplateTree.Proofs.Outlines

/-!
# Sequences of statements

A sequence of statements with their levels, added to an outline one after the other. What the
sequence says before a statement decides whether it is refused, and an outline that took all of the
sequence lists it as it came.
-/

set_option autoImplicit false

namespace TemplateTree.Outline

open Node

/-- Levels that start within a bound and rise by at most one. -/
def StepsFrom : Nat → List Nat → Prop
  | _, [] => True
  | bound, level :: levels => level ≤ bound ∧ StepsFrom (level + 1) levels

/-- How deep a statement after others may be. -/
def reach (done : List (Node × Nat)) : Nat := (done.getLast?.map (·.2 + 1)).getD 0

/-- The level of the last statement, and the first level before there is one. -/
def lastLevel (done : List (Node × Nat)) : Nat := (done.getLast?.map (·.2)).getD 0

/-- The node above a statement of the given level: the last one before it that is one level up. -/
def parentOf (root : Node) (done : List (Node × Nat)) : Nat → Option Node
  | 0 => some root
  | level + 1 => (done.reverse.find? (·.2 == level)).map (·.1)

/-- A statement is refused after others: it is nested too deep, or the node above it is closed. -/
def Refuses (root : Node) (limit : Int) (done : List (Node × Nat)) (level : Nat) : Prop :=
  max limit 0 < level ∨ ∃ parent, parentOf root done level = some parent ∧ parent.Rejects

/-- Adds statements one after the other, each after one of the level before it. Gives how many were
added before the first that is refused. -/
def insertAll : Nat → List (Node × Nat) → Outline → Nat × Except Refusal Unit × Outline
  | _, [], o => (0, .ok (), o)
  | previous, (n, level) :: rest, o =>
    match o.insert n level previous with
    | (.error refusal, o) => (0, .error refusal, o)
    | (.ok (), o) => ((insertAll level rest o).1 + 1, (insertAll level rest o).2)

section Concat
variable {root : Node} {done : List (Node × Nat)} {statement : Node} {level k : Nat}

@[simp] theorem reach_concat : reach (done ++ [(statement, level)]) = level + 1 := by
  rw [reach, List.getLast?_concat]
  rfl

@[simp] theorem lastLevel_concat : lastLevel (done ++ [(statement, level)]) = level := by
  rw [lastLevel, List.getLast?_concat]
  rfl

theorem reach_le : reach done ≤ lastLevel done + 1 := by
  unfold reach lastLevel
  cases done.getLast? with
  | none => exact Nat.zero_le _
  | some e => exact Nat.le_refl _

theorem parentOf_concat_of_le (hk : k ≤ level) :
    parentOf root (done ++ [(statement, level)]) k = parentOf root done k := by
  cases k with
  | zero => rfl
  | succ k =>
    have hne : ¬ level = k := by omega
    simp [parentOf, hne]

theorem parentOf_concat_succ :
    parentOf root (done ++ [(statement, level)]) (level + 1) = some statement := by
  simp [parentOf]

theorem stepsFrom_concat : StepsFrom 0 ((done ++ [(statement, level)]).map (·.2)) ↔
    StepsFrom 0 (done.map (·.2)) ∧ level ≤ reach done := by
  suffices h : ∀ bound, StepsFrom bound ((done ++ [(statement, level)]).map (·.2)) ↔
      StepsFrom bound (done.map (·.2)) ∧ level ≤ (done.getLast?.map (·.2 + 1)).getD bound from h 0
  intro bound
  induction done generalizing bound with
  | nil => simp [StepsFrom]
  | cons e done ih =>
    simp only [List.cons_append, List.map_cons, StepsFrom, ih, and_assoc, List.getLast?_cons]
    cases done.getLast? <;> rfl

end Concat

/-- An outline with the open nodes and the limit that a sequence of statements leads to. -/
structure Levelled (o : Outline) (done : List (Node × Nat)) : Prop where
  grown : o.Grown Accepts (lastLevel done)
  last : o.last = done.getLast?.map (·.2 + 1)
  within : (lastLevel done : Int) ≤ max (o.maxDepth.toInt?.getD 0) 0

namespace Levelled
variable {o o' : Outline} {done : List (Node × Nat)} {statement : Node} {level : Nat}

theorem start (root : Node) (maxDepth : Value) : Levelled (start root maxDepth) [] :=
  ⟨grown_start root maxDepth, rfl, Int.le_max_right _ _⟩

theorem level_eq_zero (h : Levelled o done) (hle : level ≤ reach done) (hnone : o.last = none) :
    level = 0 := by
  have hdone := Option.map_eq_none_iff.mp (h.last.symm.trans hnone)
  rw [reach, hdone] at hle
  exact Nat.le_zero.mp hle

/-- The limit leaves room for a level below the last statement. -/
theorem hasRoom_iff (h : Levelled o done) :
    o.hasRoom ↔ ∃ limit, o.maxDepth.toInt? = some limit ∧ (lastLevel done : Int) < limit := by
  rw [hasRoom, h.grown.atLevel.depth_eq]
  cases o.maxDepth.toInt? <;> simp

theorem path_parent (h : Levelled o done) (hle : level ≤ reach done) : o.root.PathTo Accepts level :=
  h.grown.path_parent (Nat.le_trans hle reach_le) (h.level_eq_zero hle)

theorem insert_error (h : Levelled o done) (hle : level ≤ reach done) {refusal : Refusal}
    (herror : o.insert statement level (lastLevel done) = (.error refusal, o')) :
    ∃ cause, refusal = .illegal cause ∧ cause.errorClass = .nesting ∧ cause ≠ .nothingAbove ∧
      (lastLevel done < level ∧ o.hasRoom = false ∨ ¬ (o.root.lastAt level).Accepts) := by
  rcases Outline.insert_error h.grown.atLevel (Nat.le_trans hle reach_le) (h.level_eq_zero hle)
    herror with ⟨hlt, hroom, rfl⟩ | ⟨cause, rfl, hcause⟩
  · exact ⟨_, rfl, rfl, by simp, Or.inl ⟨hlt, hroom⟩⟩
  · refine ⟨cause, rfl, errorClass_refusal? hcause, ?_, Or.inr ?_⟩
    · intro heq
      subst heq
      exact refusal?_ne_nothingAbove hcause
    · rw [Accepts, hcause]
      exact Option.some_ne_none cause

theorem concat (h : Levelled o done) (hle : level ≤ reach done)
    (hok : o.insert statement level (lastLevel done) = (.ok (), o')) :
    o' = o.withStatement statement level ∧ (o.root.lastAt level).Accepts ∧
      Levelled o' (done ++ [(statement, level)]) := by
  have hsucc := Nat.le_trans hle reach_le
  obtain ⟨hroom, hopen, rfl⟩ := insert_ok h.grown.atLevel hsucc (h.level_eq_zero hle) hok
  refine ⟨rfl, hopen, ?_, ?_, ?_⟩
  · rw [lastLevel_concat]
    exact h.grown.withStatement nests_accepts hsucc (h.level_eq_zero hle) hopen
  · rw [List.getLast?_concat]
    rfl
  · rw [lastLevel_concat]
    have hwithin := h.within
    change (level : Int) ≤ max (o.maxDepth.toInt?.getD 0) 0
    rcases hroom with hroom | hroom
    · omega
    · obtain ⟨limit, hlimit, hlt⟩ := h.hasRoom_iff.mp hroom
      rw [hlimit, Option.getD_some]
      omega

end Levelled

/-- An outline that took a sequence of statements. -/
structure Built (root : Node) (limit : Int) (o : Outline) (done : List (Node × Nat)) : Prop where
  levelled : o.Levelled done
  limited : o.maxDepth.toInt? = some limit
  listing : o.root.listing 0 = done
  parents : ∀ level ≤ reach done,
    ∃ parent, parentOf root done level = some parent ∧ parent.SameHead (o.root.lastAt level)

namespace Built
variable {root : Node} {limit : Int} {o o' : Outline} {done : List (Node × Nat)} {statement : Node}
  {level : Nat} {maxDepth : Value}

theorem start (hleaf : root.children = []) (hlimit : maxDepth.toInt? = some limit) :
    Built root limit (start root maxDepth) [] where
  levelled := .start root maxDepth
  limited := hlimit
  listing := by
    rw [Outline.start, listing_eq, hleaf]
    rfl
  parents := by
    intro level hlevel
    obtain rfl : level = 0 := Nat.le_zero.mp hlevel
    exact ⟨root, rfl, .refl root⟩

/-- A statement is refused for what the statements before it say. -/
theorem refuses (h : Built root limit o done) (hle : level ≤ reach done) {refusal : Refusal}
    (herror : o.insert statement level (lastLevel done) = (.error refusal, o')) :
    Refuses root limit done level ∧
      ∃ cause, refusal = .illegal cause ∧ cause.errorClass = .nesting := by
  obtain ⟨cause, hcause, hclass, _, hwhy⟩ := h.levelled.insert_error hle herror
  refine ⟨?_, cause, hcause, hclass⟩
  rcases hwhy with ⟨hlt, hroom⟩ | hclosed
  · have hnot : ¬ (lastLevel done : Int) < limit := by
      intro hlimit
      rw [h.levelled.hasRoom_iff.mpr ⟨limit, h.limited, hlimit⟩] at hroom
      exact Bool.noConfusion hroom
    exact Or.inl (by omega)
  · obtain ⟨parent, hparent, hsame⟩ := h.parents level hle
    rw [hsame.accepts_iff] at hclosed
    exact Or.inr ⟨parent, hparent, not_accepts_iff.mp hclosed⟩

theorem concat (h : Built root limit o done) (hle : level ≤ reach done)
    (hleaf : statement.children = [])
    (hok : o.insert statement level (lastLevel done) = (.ok (), o')) :
    ¬ Refuses root limit done level ∧ Built root limit o' (done ++ [(statement, level)]) := by
  obtain ⟨rfl, hopen, hlevelled⟩ := h.levelled.concat hle hok
  have hpath := h.levelled.path_parent hle
  constructor
  · intro hq
    rcases hq with hdeep | ⟨parent, hparent, hclosed⟩
    · have hwithin := hlevelled.within
      rw [lastLevel_concat, withStatement, openedTo, h.limited, Option.getD_some] at hwithin
      omega
    · obtain ⟨parent', hparent', hsame⟩ := h.parents level hle
      obtain rfl := Option.some.inj (hparent.symm.trans hparent')
      exact not_accepts_iff.mpr hclosed (hsame.accepts_iff.mp hopen)
  · refine ⟨hlevelled, h.limited, ?_, ?_⟩
    · have hlisting := listing_addChildAt nests_accepts hpath hopen hleaf 0
      rw [Nat.zero_add, h.listing] at hlisting
      exact hlisting
    · intro k hk
      rw [reach_concat] at hk
      rcases Nat.lt_or_ge level k with hlt | hge
      · obtain rfl : k = level + 1 := by omega
        refine ⟨statement, parentOf_concat_succ, ?_⟩
        have hlast := lastAt_addChildAt nests_accepts hpath hopen statement
        rw [withStatement, hlast]
        exact .refl statement
      · obtain ⟨p, hp, hphead⟩ := h.parents k (Nat.le_trans hge hle)
        refine ⟨p, (parentOf_concat_of_le hge).trans hp, hphead.trans ?_⟩
        exact sameHead_lastAt_addChildAt nests_accepts hpath hge statement

/-- Along a sequence, statements are added up to the first that is refused. -/
theorem insertAll_outcome {statements : List (Node × Nat)} {count : Nat}
    {result : Except Refusal Unit} (h : Built root limit o done)
    (hsteps : StepsFrom (reach done) (statements.map (·.2)))
    (hleaf : ∀ e ∈ statements, e.1.children = [])
    (hrun : insertAll (lastLevel done) statements o = (count, result, o')) :
    (∀ i < count, ∀ e, statements[i]? = some e →
        ¬ Refuses root limit (done ++ statements.take i) e.2) ∧
      ((result = .ok () ∧ count = statements.length ∧ Built root limit o' (done ++ statements)) ∨
        ∃ e cause, result = .error (.illegal cause) ∧ cause.errorClass = .nesting ∧
          statements[count]? = some e ∧ Refuses root limit (done ++ statements.take count) e.2) := by
  induction statements generalizing o done count with
  | nil =>
    simp only [insertAll, Prod.mk.injEq] at hrun
    obtain ⟨rfl, rfl, rfl⟩ := hrun
    exact ⟨by simp, Or.inl ⟨rfl, rfl, by simpa using h⟩⟩
  | cons e rest ih =>
    obtain ⟨statement, level⟩ := e
    obtain ⟨hle, hsteps⟩ := hsteps
    rcases hinsert : o.insert statement level (lastLevel done) with ⟨refusal | ⟨⟩, o₁⟩
    · obtain ⟨hrefuses, cause, rfl, hclass⟩ := h.refuses hle hinsert
      simp only [insertAll, hinsert, Prod.mk.injEq] at hrun
      obtain ⟨rfl, rfl, rfl⟩ := hrun
      refine ⟨fun i hi => absurd hi (Nat.not_lt_zero i), Or.inr ⟨_, cause, rfl, hclass, rfl, ?_⟩⟩
      simpa using hrefuses
    · obtain ⟨hnot, hbuilt⟩ := h.concat hle (hleaf _ List.mem_cons_self) hinsert
      rcases hrest : insertAll level rest o₁ with ⟨count₁, result₁, o₂⟩
      simp only [insertAll, hinsert, hrest, Prod.mk.injEq] at hrun
      obtain ⟨rfl, rfl, rfl⟩ := hrun
      obtain ⟨hbefore, hend⟩ := ih hbuilt (by rwa [reach_concat])
        (fun e he => hleaf e (List.mem_cons_of_mem _ he)) (by rwa [lastLevel_concat])
      simp only [List.append_assoc, List.singleton_append] at hbefore hend
      refine ⟨?_, ?_⟩
      · intro i hi e he
        cases i with
        | zero =>
          obtain rfl := Option.some.inj he
          simpa using hnot
        | succ i => exact hbefore i (Nat.lt_of_succ_lt_succ hi) e he
      · rcases hend with ⟨hok, hcount, hbuilt⟩ | ⟨e, cause, herror, hclass, he, hrefuses⟩
        · exact Or.inl ⟨hok, by rw [hcount]; rfl, hbuilt⟩
        · exact Or.inr ⟨e, cause, herror, hclass, he, hrefuses⟩

end Built

end TemplateTree.Outline
