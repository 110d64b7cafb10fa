import TemplateTree.Proofs.Shape

/-!
# Paths along last children

The path from a node along last children, and what adding a node at its end does: the nodes on the
path stay where they are and change only in what is nested in them, and the listing of the nested
nodes gets one more entry at its end.
-/

set_option autoImplicit false

namespace TemplateTree.Node

def Accepts (n : Node) : Prop := Outline.refusal? n = none

theorem Accepts.canNest {n : Node} (h : n.Accepts) : n.canNest := (open_of_refusal? h).1

/-- A node that owns no statements, has content on its line and takes no statements besides, or
closes itself. -/
def Rejects (n : Node) : Prop :=
  n.canNest = false ∨ n.hasContent ∧ n.kind.allowsNestingWithContent = false ∨ n.isSelfClosing

theorem not_accepts_iff {n : Node} : ¬ n.Accepts ↔ n.Rejects := by
  unfold Rejects
  constructor
  · intro h
    unfold Accepts Outline.refusal? at h
    by_cases hnest : n.canNest
    · by_cases hcontent : n.hasContent && !n.kind.allowsNestingWithContent
      · exact Or.inr (Or.inl (by simpa using hcontent))
      · by_cases hself : n.isSelfClosing
        · exact Or.inr (Or.inr hself)
        · simp [hnest, hcontent, hself] at h
    · exact Or.inl (by simpa using hnest)
  · intro h hopen
    obtain ⟨hnest, hcontent, hself⟩ := open_of_refusal? hopen
    rcases h with h | ⟨h, h'⟩ | h
    · simp [h] at hnest
    · simp [hcontent h] at h'
    · simp [h] at hself

section Children
variable {n m : Node} {cs ds : List Node}

@[simp] theorem withChildren_withChildren :
    (n.withChildren cs).withChildren ds = n.withChildren ds := by
  cases n <;> rfl

theorem withChildren_eq_self (h : n.children = cs) : n.withChildren cs = n := by
  subst h
  cases n <;> rfl

theorem accepts_withChildren : (n.withChildren cs).Accepts ↔ n.Accepts := by
  unfold Accepts
  rw [refusal?_withChildren]

theorem ownsRawLines_withChildren : (n.withChildren cs).ownsRawLines = n.ownsRawLines := by
  cases n <;> rfl

/-- Nodes that differ only in their children, as far as they own any. -/
def SameHead (n m : Node) : Prop := ∃ cs, m = n.withChildren cs

theorem SameHead.refl (n : Node) : n.SameHead n := ⟨n.children, (withChildren_eq_self rfl).symm⟩

theorem SameHead.trans {k : Node} (hnm : n.SameHead m) (hmk : m.SameHead k) : n.SameHead k := by
  obtain ⟨cs, rfl⟩ := hnm
  obtain ⟨ds, rfl⟩ := hmk
  exact ⟨ds, withChildren_withChildren⟩

theorem SameHead.withChildren_eq (h : n.SameHead m) (cs : List Node) :
    m.withChildren cs = n.withChildren cs := by
  obtain ⟨ds, rfl⟩ := h
  exact withChildren_withChildren

theorem SameHead.kind_eq (h : n.SameHead m) : m.kind = n.kind := by
  obtain ⟨cs, rfl⟩ := h
  exact kind_withChildren cs n

theorem SameHead.accepts_iff (h : n.SameHead m) : m.Accepts ↔ n.Accepts := by
  obtain ⟨cs, rfl⟩ := h
  exact accepts_withChildren

end Children

/-- A property of nodes that own statements, and that does not depend on which. -/
structure Nests (Q : Node → Prop) : Prop where
  canNest : ∀ n, Q n → n.canNest
  withChildren : ∀ n, Q n → ∀ cs, Q (n.withChildren cs)

theorem nests_accepts : Nests Accepts where
  canNest := fun _ h => h.canNest
  withChildren := fun _ h _ => accepts_withChildren.mpr h

/-- The path of a number of steps along last children, on which all nodes before the last have a
property. -/
inductive PathTo (Q : Node → Prop) : Node → Nat → Prop where
  | here (n : Node) : PathTo Q n 0
  | step {n last : Node} {depth : Nat} (own : Q n) (hlast : n.children.getLast? = some last)
      (below : PathTo Q last depth) : PathTo Q n (depth + 1)

namespace PathTo
variable {Q : Node → Prop} {n child : Node} {depth k : Nat}

theorem le (h : PathTo Q n depth) (hk : k ≤ depth) : PathTo Q n k := by
  induction h generalizing k with
  | here n =>
    obtain rfl := Nat.le_zero.mp hk
    exact .here n
  | step own hlast _ ih =>
    cases k with
    | zero => exact .here _
    | succ k => exact .step own hlast (ih (Nat.le_of_succ_le_succ hk))

theorem own_lastAt (h : PathTo Q n depth) (hk : k < depth) : Q (n.lastAt k) := by
  induction h generalizing k with
  | here n => exact absurd hk (Nat.not_lt_zero _)
  | step own hlast _ ih =>
    cases k with
    | zero => exact own
    | succ k =>
      simp only [lastAt, hlast]
      exact ih (Nat.lt_of_succ_lt_succ hk)

end PathTo

section Adding
variable {Q : Node → Prop} {n child : Node} {depth k : Nat}

theorem sameHead_addChildAt (n : Node) (depth : Nat) (child : Node) :
    n.SameHead (n.addChildAt depth child) := by
  unfold addChildAt
  split
  · exact ⟨_, rfl⟩
  · split
    · exact ⟨_, rfl⟩
    · exact .refl n

/-- The nodes down to the parent stay where they are. -/
theorem sameHead_lastAt_addChildAt (hq : Nests Q) (h : PathTo Q n depth) (hk : k ≤ depth)
    (child : Node) : (n.lastAt k).SameHead ((n.addChildAt depth child).lastAt k) := by
  induction h generalizing k with
  | here n =>
    obtain rfl := Nat.le_zero.mp hk
    exact sameHead_addChildAt n 0 child
  | @step n last depth own hlast _ ih =>
    cases k with
    | zero => exact sameHead_addChildAt n (depth + 1) child
    | succ k =>
      have hchildren := children_withChildren (hq.canNest n own)
        (n.children.dropLast ++ [last.addChildAt depth child])
      simp only [addChildAt, lastAt, hlast, hchildren, List.getLast?_concat]
      exact ih (Nat.le_of_succ_le_succ hk)

/-- The new node is at the end of the path, one step below its parent. -/
theorem lastAt_addChildAt (hq : Nests Q) (h : PathTo Q n depth) (hend : Q (n.lastAt depth))
    (child : Node) : (n.addChildAt depth child).lastAt (depth + 1) = child := by
  induction h with
  | here n =>
    have hchildren := children_withChildren (hq.canNest n hend) (n.children ++ [child])
    simp only [addChildAt, addChild, lastAt, hchildren, List.getLast?_concat]
  | @step n last depth own hlast _ ih =>
    have hchildren := children_withChildren (hq.canNest n own)
      (n.children.dropLast ++ [last.addChildAt depth child])
    simp only [lastAt, hlast] at hend
    rw [addChildAt, lastAt]
    simp only [hlast, hchildren, List.getLast?_concat]
    exact ih hend

theorem PathTo.addChildAt (hq : Nests Q) (h : PathTo Q n depth) (hend : Q (n.lastAt depth))
    (child : Node) : PathTo Q (n.addChildAt depth child) (depth + 1) := by
  induction h with
  | here n =>
    have hchildren := children_withChildren (hq.canNest n hend) (n.children ++ [child])
    have hlast : (n.addChildAt 0 child).children.getLast? = some child := by
      simp only [Node.addChildAt, addChild, hchildren, List.getLast?_concat]
    exact .step (hq.withChildren n hend _) hlast (.here child)
  | @step n last depth own hlast _ ih =>
    have hchildren := children_withChildren (hq.canNest n own)
      (n.children.dropLast ++ [last.addChildAt depth child])
    simp only [lastAt, hlast] at hend
    rw [Node.addChildAt]
    simp only [hlast]
    refine .step (hq.withChildren n own _) ?_ (ih hend)
    rw [hchildren, List.getLast?_concat]

/-- A rule for nodes is kept by a node that is added, when it does not depend on the children of the
nodes on the path. -/
theorem Everywhere.addChildAt {P : Node → Prop} (hsame : ∀ m cs, Q m → P m → P (m.withChildren cs))
    (h : PathTo Q n depth) (hend : Q (n.lastAt depth)) (hn : n.Everywhere P)
    (hchild : child.Everywhere P) : (n.addChildAt depth child).Everywhere P := by
  induction h with
  | here n =>
    refine .intro (hsame n _ hend hn.here) ?_
    intro m hm
    rcases mem_subnodes_withChildren hm with hm | hm
    · rcases List.mem_append.mp hm with hm | hm
      · exact hn.of_mem (children_subset_subnodes hm)
      · rwa [List.mem_singleton.mp hm]
    · exact hn.of_mem hm
  | @step n last depth own hlast _ ih =>
    simp only [lastAt, hlast] at hend
    have hmem : last ∈ n.children := List.mem_of_getLast? hlast
    rw [Node.addChildAt]
    simp only [hlast]
    refine .intro (hsame n _ own hn.here) ?_
    intro m hm
    rcases mem_subnodes_withChildren hm with hm | hm
    · rcases List.mem_append.mp hm with hm | hm
      · exact hn.of_mem (children_subset_subnodes (List.dropLast_subset _ hm))
      · rw [List.mem_singleton.mp hm]
        exact ih hend (hn.of_mem (children_subset_subnodes hmem))
    · exact hn.of_mem hm

end Adding

mutual

/-- The statements nested in a node in the order of the source, each without what is nested in it
and with its level, when those directly in the node have the given one. -/
def listing : Node → Nat → List (Node × Nat)
  | root cs _, level | tag _ _ _ _ cs _, level | comment _ _ _ cs _, level
  | interpolatedString cs _ _, level | run _ cs _, level | filter _ cs _, level =>
    listingIn cs level
  | _, _ => []

def listingIn : List Node → Nat → List (Node × Nat)
  | [], _ => []
  | c :: cs, level => (c.withChildren [], level) :: (listing c (level + 1) ++ listingIn cs level)

end

theorem listing_eq (n : Node) (level : Nat) : n.listing level = listingIn n.children level := by
  cases n <;> simp only [listing, children, listingIn]

theorem listingIn_append (cs ds : List Node) (level : Nat) :
    listingIn (cs ++ ds) level = listingIn cs level ++ listingIn ds level := by
  induction cs with
  | nil => rfl
  | cons c cs ih => simp only [List.cons_append, listingIn, ih, List.append_assoc]

/-- A node that is added comes last in the listing, at the level of its depth. -/
theorem listing_addChildAt {Q : Node → Prop} (hq : Nests Q) {n child : Node} {depth : Nat}
    (h : PathTo Q n depth) (hend : Q (n.lastAt depth))
    (hchild : child.children = []) (level : Nat) :
    (n.addChildAt depth child).listing level = n.listing level ++ [(child, level + depth)] := by
  induction h generalizing level with
  | here n =>
    have hchildren := children_withChildren (hq.canNest n hend) (n.children ++ [child])
    rw [addChildAt, addChild, listing_eq, hchildren, listingIn_append, ← listing_eq]
    simp only [listingIn, listing_eq child, hchild, withChildren_eq_self hchild, List.append_nil]
    rfl
  | @step n last depth own hlast _ ih =>
    have hchildren := children_withChildren (hq.canNest n own)
      (n.children.dropLast ++ [last.addChildAt depth child])
    have hhead := (sameHead_addChildAt last depth child).withChildren_eq []
    simp only [lastAt, hlast] at hend
    rw [addChildAt, listing_eq n]
    simp only [hlast]
    rw [listing_eq, hchildren, listingIn_append, ← List.dropLast_append_getLast? _ hlast]
    rw [List.dropLast_concat, listingIn_append, List.append_assoc]
    simp only [listingIn, hhead, ih hend, List.append_nil, List.cons_append]
    rw [Nat.add_right_comm, Nat.add_assoc]

end TemplateTree.Node
