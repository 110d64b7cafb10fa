import Mathlib.Data.List.Basic
import TemplateTree.Scan.Index

/-!
# Groups in square brackets

A group ends with the bracket that closes its first one, so before its end more brackets are opened
than closed, and it has no empty pair of brackets. A scan finds the end of the group that starts at
an index, if there is one, and nothing else.

The scan counts the groups that are open, and whenever one is opened it looks for an empty pair. The
character that it looks at belongs to what closes the groups (`ClosesGroups.head?_take`), so nothing
behind a group makes the scan refuse it.
-/

set_option autoImplicit false

namespace TemplateTree.Scan

/-- A group with its brackets. -/
structure IsGroup (group : List Char) : Prop where
  opens : group.head? = some '['
  closes : group.getLast? = some ']'
  inside : ∀ p, p <+: group → p ≠ group → p ≠ [] → p.count ']' < p.count '['
  balanced : group.count '[' = group.count ']'
  no_empty_pair : ¬ ['[', ']'] <:+: group

/-- An index of a text that is the end of a group that starts at `start`. -/
structure EndsGroup (text : List Char) (start stop : Nat) : Prop where
  stop_le : stop ≤ text.length
  isGroup : IsGroup (Text.slice text start stop)

/-- Text that starts in so many groups and ends with the bracket that closes the outermost one. -/
structure ClosesGroups (depth : Nat) (cs : List Char) : Prop where
  inside : ∀ p, p <+: cs → p ≠ cs → p.count ']' < depth + p.count '['
  balanced : depth + cs.count '[' = cs.count ']'
  no_empty_pair : ¬ ['[', ']'] <:+: cs

section Steps
variable {depth : Nat} {c : Char} {cs : List Char}

theorem forall_prefix_cons {P : List Char → Prop} :
    (∀ p, p <+: c :: cs → p ≠ c :: cs → P p) ↔ P [] ∧ ∀ p, p <+: cs → p ≠ cs → P (c :: p) := by
  constructor
  · intro h
    refine ⟨h [] List.nil_prefix (List.cons_ne_nil c cs).symm, fun p hp hne => ?_⟩
    exact h (c :: p) (List.cons_prefix_cons.mpr ⟨rfl, hp⟩) fun heq => hne (List.cons.inj heq).2
  · rintro ⟨hnil, hcons⟩ p hp hne
    rcases List.prefix_cons_iff.mp hp with rfl | ⟨q, rfl, hq⟩
    · exact hnil
    · exact hcons q hq fun heq => hne (heq ▸ rfl)

theorem pair_infix_cons :
    ['[', ']'] <:+: c :: cs ↔ c = '[' ∧ cs.head? = some ']' ∨ ['[', ']'] <:+: cs := by
  rw [List.infix_cons_iff, List.cons_prefix_cons, List.singleton_prefix_iff_head?_eq_some,
    eq_comm]

theorem closesGroups_zero : ClosesGroups 0 cs ↔ cs = [] := by
  constructor
  · intro h
    by_contra hne
    exact absurd (h.inside [] List.nil_prefix (Ne.symm hne)) (Nat.lt_irrefl 0)
  · rintro rfl
    exact ⟨fun p hp hne => absurd (List.prefix_nil.mp hp) hne, rfl, by simp⟩

theorem not_closesGroups_nil (h : 0 < depth) : ¬ ClosesGroups depth [] := by
  intro hcloses
  have hbalanced := hcloses.balanced
  rw [List.count_nil, List.count_nil] at hbalanced
  omega

/-- One character more, behind which `outer` groups are open. -/
theorem closesGroups_cons (outer : Nat) (h : 0 < depth)
    (hcount : ∀ p : List Char,
      depth + (c :: p).count '[' + p.count ']' = outer + p.count '[' + (c :: p).count ']') :
    ClosesGroups depth (c :: cs) ↔
      ¬ (c = '[' ∧ cs.head? = some ']') ∧ ClosesGroups outer cs := by
  constructor
  · rintro ⟨hinside, hbalanced, hpair⟩
    rw [pair_infix_cons, not_or] at hpair
    refine ⟨hpair.1, fun p hp hne => ?_, ?_, hpair.2⟩
    · have hlt := (forall_prefix_cons.mp hinside).2 p hp hne
      have := hcount p
      omega
    · have := hcount cs
      omega
  · rintro ⟨hhead, hinside, hbalanced, hpair⟩
    refine ⟨forall_prefix_cons.mpr ⟨h, fun p hp hne => ?_⟩, ?_, ?_⟩
    · have hlt := hinside p hp hne
      have := hcount p
      omega
    · have := hcount cs
      omega
    · rw [pair_infix_cons, not_or]
      exact ⟨hhead, hpair⟩

theorem closesGroups_opening (h : 0 < depth) : ClosesGroups depth ('[' :: cs) ↔
    cs.head? ≠ some ']' ∧ ClosesGroups (depth + 1) cs := by
  rw [closesGroups_cons (depth + 1) h]
  · simp
  · intro p
    rw [List.count_cons_self, List.count_cons_of_ne (by decide)]
    omega

theorem closesGroups_closing :
    ClosesGroups (depth + 1) (']' :: cs) ↔ ClosesGroups depth cs := by
  rw [closesGroups_cons depth depth.succ_pos]
  · simp
  · intro p
    rw [List.count_cons_self, List.count_cons_of_ne (by decide)]
    omega

theorem closesGroups_other (h : 0 < depth) (hopening : c ≠ '[') (hclosing : c ≠ ']') :
    ClosesGroups depth (c :: cs) ↔ ClosesGroups depth cs := by
  rw [closesGroups_cons depth h]
  · simp [hopening]
  · intro p
    rw [List.count_cons_of_ne hopening, List.count_cons_of_ne hclosing]

end Steps

section Scan
variable {depth n : Nat} {c : Char} {cs text : List Char}

/-- What closes groups is not empty, so it starts as the whole text does. -/
theorem ClosesGroups.head?_take (hcloses : ClosesGroups depth (cs.take n)) (h : 0 < depth) :
    (cs.take n).head? = cs.head? := by
  rw [List.head?_take, if_neg]
  rintro rfl
  exact not_closesGroups_nil h hcloses

theorem closesGroups_opening_take (h : 0 < depth) : ClosesGroups depth ('[' :: cs.take n) ↔
    cs.head? ≠ some ']' ∧ ClosesGroups (depth + 1) (cs.take n) := by
  rw [closesGroups_opening h]
  refine and_congr_left fun hcloses => ?_
  rw [hcloses.head?_take depth.succ_pos]

theorem closesGroups_take_cons (h : 0 < depth) :
    n ≤ (c :: cs).length ∧ ClosesGroups depth ((c :: cs).take n) ↔
      ∃ m, (m ≤ cs.length ∧ ClosesGroups depth (c :: cs.take m)) ∧ m + 1 = n := by
  constructor
  · rintro ⟨hle, hcloses⟩
    cases n with
    | zero => exact absurd hcloses (not_closesGroups_nil h)
    | succ m => exact ⟨m, ⟨Nat.le_of_succ_le_succ hle, hcloses⟩, rfl⟩
  · rintro ⟨m, ⟨hle, hcloses⟩, rfl⟩
    exact ⟨Nat.succ_le_succ hle, hcloses⟩

theorem closesGroups_take_last :
    n ≤ (']' :: cs).length ∧ ClosesGroups 1 ((']' :: cs).take n) ↔ n = 1 := by
  rw [closesGroups_take_cons Nat.one_pos]
  simp only [closesGroups_closing, closesGroups_zero]
  constructor
  · rintro ⟨m, ⟨hle, hnil⟩, rfl⟩
    have hzero : m = 0 := by
      rw [← Nat.min_eq_left hle, ← List.length_take, hnil, List.length_nil]
    rw [hzero]
  · rintro rfl
    exact ⟨0, ⟨Nat.zero_le _, rfl⟩, rfl⟩

/-- A scan that starts in groups stops behind the bracket that closes the outermost one. -/
theorem closingBracket_eq_some_iff (h : 0 < depth) : closingBracket depth cs = some n ↔
    n ≤ cs.length ∧ ClosesGroups depth (cs.take n) := by
  fun_induction closingBracket depth cs generalizing n with
  | case1 depth => simp [not_closesGroups_nil h]
  | case2 depth rest =>
    -- no text that goes on with an empty pair closes anything, however long it is
    rw [closesGroups_take_cons h]
    simp [closesGroups_opening_take h]
  | case3 depth rest hpair ih =>
    have hhead : rest.head? ≠ some ']' := by
      intro hclosing
      obtain ⟨others, rfl⟩ := List.head?_eq_some_iff.mp hclosing
      exact hpair others rfl
    rw [closesGroups_take_cons h, Option.map_eq_some_iff]
    simp only [ih depth.succ_pos, closesGroups_opening_take h, hhead, ne_eq, not_false_eq_true,
      true_and]
  | case4 depth rest hlast =>
    obtain rfl : depth = 1 := by omega
    rw [closesGroups_take_last, Option.some.injEq, eq_comm]
  | case5 depth rest hmore ih =>
    obtain ⟨outer, rfl⟩ : ∃ outer, depth = outer + 1 := ⟨depth - 1, by omega⟩
    have houter : 0 < outer := by omega
    rw [closesGroups_take_cons h, Option.map_eq_some_iff]
    rw [Nat.add_sub_cancel] at ih ⊢
    simp only [ih houter, closesGroups_closing]
  | case6 depth c rest hopening hclosing ih =>
    rw [closesGroups_take_cons h, Option.map_eq_some_iff]
    simp only [ih h, closesGroups_other h hopening hclosing]

theorem ClosesGroups.getLast?_eq (hcloses : ClosesGroups depth cs) (h : 0 < depth) :
    cs.getLast? = some ']' := by
  rcases List.eq_nil_or_concat' cs with rfl | ⟨before, c, rfl⟩
  · exact absurd hcloses (not_closesGroups_nil h)
  · have hlt := hcloses.inside before (List.prefix_append _ _) (by simp)
    have hbalanced := hcloses.balanced
    rw [List.count_append, List.count_append] at hbalanced
    have hlast : c = ']' := by
      by_contra hne
      rw [List.count_cons_of_ne hne, List.count_nil] at hbalanced
      omega
    rw [hlast, List.getLast?_concat]

/-- A group is a bracket with what closes it. -/
theorem isGroup_cons_iff :
    IsGroup (c :: cs) ↔ c = '[' ∧ cs.head? ≠ some ']' ∧ ClosesGroups 1 cs := by
  have hopening : ∀ p : List Char, ('[' :: p).count '[' = 1 + p.count '[' := fun p => by
    rw [List.count_cons_self, Nat.add_comm]
  have hclosing : ∀ p : List Char, ('[' :: p).count ']' = p.count ']' := fun p =>
    List.count_cons_of_ne (by decide)
  constructor
  · rintro ⟨hopens, -, hinside, hbalanced, hpair⟩
    obtain rfl : c = '[' := Option.some.inj hopens
    rw [pair_infix_cons, not_or] at hpair
    rw [hopening, hclosing] at hbalanced
    refine ⟨rfl, fun hhead => hpair.1 ⟨rfl, hhead⟩, fun p hp hne => ?_, hbalanced, hpair.2⟩
    have hlt := (forall_prefix_cons.mp hinside).2 p hp hne (List.cons_ne_nil _ _)
    rwa [hopening, hclosing] at hlt
  · rintro ⟨rfl, hhead, hcloses⟩
    refine ⟨rfl, ?_, forall_prefix_cons.mpr ⟨fun hnil => absurd rfl hnil, fun p hp hne _ => ?_⟩,
      ?_, ?_⟩
    · rw [List.getLast?_cons, hcloses.getLast?_eq Nat.one_pos, Option.getD_some]
    · rw [hopening, hclosing]
      exact hcloses.inside p hp hne
    · rw [hopening, hclosing]
      exact hcloses.balanced
    · rw [pair_infix_cons, not_or]
      exact ⟨fun hpair => hhead hpair.2, hcloses.no_empty_pair⟩

theorem pos_of_isGroup_take (h : IsGroup (cs.take n)) : 0 < n := by
  by_contra hzero
  rw [Nat.eq_zero_of_not_pos hzero] at h
  cases h.opens

theorem isGroup_take_cons : n ≤ (c :: cs).length ∧ IsGroup ((c :: cs).take n) ↔
    c = '[' ∧ cs.head? ≠ some ']' ∧
      ∃ m, (m ≤ cs.length ∧ ClosesGroups 1 (cs.take m)) ∧ m + 1 = n := by
  constructor
  · rintro ⟨hle, hgroup⟩
    obtain ⟨m, rfl⟩ := Nat.exists_eq_add_one.mpr (pos_of_isGroup_take hgroup)
    obtain ⟨hopens, hhead, hcloses⟩ := isGroup_cons_iff.mp hgroup
    rw [hcloses.head?_take Nat.one_pos] at hhead
    exact ⟨hopens, hhead, m, ⟨Nat.le_of_succ_le_succ hle, hcloses⟩, rfl⟩
  · rintro ⟨hopens, hhead, m, ⟨hle, hcloses⟩, rfl⟩
    rw [← hcloses.head?_take Nat.one_pos] at hhead
    exact ⟨Nat.succ_le_succ hle, isGroup_cons_iff.mpr ⟨hopens, hhead, hcloses⟩⟩

theorem brackets_opening : brackets ('[' :: cs) =
    if cs.head? = some ']' then none else (closingBracket 1 cs).map (· + 1) := by
  rw [brackets, closingBracket.eq_def]
  cases cs with
  | nil => rfl
  | cons c rest =>
    by_cases hc : c = ']'
    · subst hc
      rfl
    · simp [hc]

theorem brackets_cons_eq_some_iff : brackets (c :: cs) = some n ↔
    c = '[' ∧ cs.head? ≠ some ']' ∧ ∃ m, closingBracket 1 cs = some m ∧ m + 1 = n := by
  by_cases hc : c = '['
  · subst hc
    rw [brackets_opening]
    split <;> simp [*]
  · simp [brackets, hc]

theorem brackets_eq_some_iff : brackets cs = some n ↔ n ≤ cs.length ∧ IsGroup (cs.take n) := by
  cases cs with
  | nil =>
    constructor
    · intro h
      cases h
    · rintro ⟨hle, hgroup⟩
      exact absurd (pos_of_isGroup_take hgroup) (Nat.not_lt.mpr hle)
  | cons c rest =>
    rw [brackets_cons_eq_some_iff, isGroup_take_cons]
    simp only [closingBracket_eq_some_iff Nat.one_pos]

theorem brackets_eq_length_iff : brackets cs = some cs.length ↔ IsGroup cs := by
  rw [brackets_eq_some_iff, List.take_length]
  exact and_iff_right (Nat.le_refl _)

theorem endsGroup_iff {start stop : Nat} : EndsGroup text start stop ↔
    ∃ n, brackets (text.drop start) = some n ∧ stop = start + n := by
  constructor
  · rintro ⟨hle, hgroup⟩
    rw [Text.slice_natCast] at hgroup
    have hpos := pos_of_isGroup_take hgroup
    refine ⟨stop - start, brackets_eq_some_iff.mpr ⟨?_, hgroup⟩, by omega⟩
    rw [List.length_drop]
    omega
  · rintro ⟨n, hscan, rfl⟩
    obtain ⟨hle, hgroup⟩ := brackets_eq_some_iff.mp hscan
    have hpos := pos_of_isGroup_take hgroup
    rw [List.length_drop] at hle
    refine ⟨by omega, ?_⟩
    rwa [Text.slice_natCast, Nat.add_sub_cancel_left]

end Scan

/-- A scan from an index on stops at the end of the group that starts there. It finds nothing if and
only if none starts there. -/
theorem bracketsAt_endsGroup (text : List Char) (start : Nat) :
    (∀ stop : Int, bracketsAt text start = .ok (some stop) ↔
      ∃ n : Nat, stop = n ∧ EndsGroup text start n) ∧
    (bracketsAt text start = .ok none ↔ ∀ n, ¬ EndsGroup text start n) := by
  simp only [bracketsAt_natCast, Except.ok.injEq, stopOf, endsGroup_iff]
  constructor
  · intro stop
    rw [Option.map_eq_some_iff]
    constructor
    · rintro ⟨n, hscan, rfl⟩
      exact ⟨start + n, rfl, n, hscan, rfl⟩
    · rintro ⟨_, rfl, n, hscan, rfl⟩
      exact ⟨n, hscan, rfl⟩
  · rw [Option.map_eq_none_iff, Option.eq_none_iff_forall_ne_some]
    constructor
    · rintro hnone _ ⟨n, hscan, -⟩
      exact hnone n hscan
    · intro h n hscan
      exact h _ ⟨n, hscan, rfl⟩

/-- The inner bracket does not close the group, and what follows the group is no part of it. -/
example : brackets "[if [IE] lte 8] []".toList = some 15 := by decide +kernel

end TemplateTree.Scan
