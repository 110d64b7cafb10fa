import TemplateTree.Proofs.Paths

/-!
# Trees with other lines in their filters

`mapLines f` changes what the lines of the filters of a tree wrap, and nothing else. A statement
goes to the same place of both trees.
-/

set_option autoImplicit false

namespace TemplateTree.Node

/-- A statement that wraps a text, as the lines of blocks are kept. -/
def IsTextLine : Node → Prop
  | statement (text ..) _ => True
  | _ => False

/-- Changes the text that a line wraps. -/
def mapLine (f : Node → Node) : Node → Node
  | statement (text content p) q => statement (f (text content p)) q
  | n => n

mutual

/-- Changes the texts that the lines of filters wrap. -/
def mapLines (f : Node → Node) : Node → Node
  | root cs p => root (mapLinesIn f cs) p
  | tag name as flags c cs p => tag name as flags c (mapLinesIn f cs) p
  | comment rendered condition c cs p => comment rendered condition c (mapLinesIn f cs) p
  | run content cs p => run content (mapLinesIn f cs) p
  | filter name cs p => filter name ((mapLinesIn f cs).map (mapLine f)) p
  | n => n

def mapLinesIn (f : Node → Node) : List Node → List Node
  | [] => []
  | n :: ns => mapLines f n :: mapLinesIn f ns

end

/-- How the statements that are nested in a node are changed. -/
def mapNested (f : Node → Node) : Node → Node → Node
  | filter .. => fun c => mapLine f (mapLines f c)
  | _ => mapLines f

section MapLines
variable {f : Node → Node} {n m child : Node} {depth : Nat}

@[simp] theorem mapLinesIn_eq_map (f : Node → Node) (ns : List Node) :
    mapLinesIn f ns = ns.map (mapLines f) := by
  induction ns with
  | nil => rfl
  | cons n ns ih => rw [mapLinesIn, ih, List.map_cons]

theorem children_mapLines (h : n.canNest) :
    (n.mapLines f).children = n.children.map (n.mapNested f) := by
  cases n <;> first | exact absurd h Bool.false_ne_true | simp [mapLines, children, mapNested]

theorem withChildren_mapLines (h : n.canNest) (cs : List Node) :
    (n.withChildren cs).mapLines f = (n.mapLines f).withChildren (cs.map (n.mapNested f)) := by
  cases n <;> first | exact absurd h Bool.false_ne_true | simp [mapLines, withChildren, mapNested]

theorem refusal?_mapLines : Outline.refusal? (n.mapLines f) = Outline.refusal? n := by
  cases n <;> rfl

/-- Nothing is changed in a node that is no filter and in which no filter is nested. -/
theorem mapLines_eq_self (hkind : n.kind ≠ .filter) (h : ∀ c ∈ n.children, c.mapLines f = c) :
    n.mapLines f = n := by
  have hchildren : n.children.map (mapLines f) = n.children :=
    (List.map_congr_left h).trans (List.map_id _)
  cases n with
  | filter => exact absurd rfl hkind
  | root | tag | comment | run =>
    rw [children] at hchildren
    rw [mapLines, mapLinesIn_eq_map, hchildren]
  | _ => rfl

/-- Only the lines of a filter are changed otherwise than elsewhere. -/
theorem mapNested_eq (f : Node → Node) (n : Node) (h : ¬ m.IsTextLine) :
    n.mapNested f m = m.mapLines f := by
  have hline : mapLine f (m.mapLines f) = m.mapLines f := by
    cases m with
    | statement content p => cases content <;> first | rfl | exact absurd trivial h
    | _ => rfl
  cases n <;> first | rfl | exact hline

theorem Accepts.not_isTextLine (h : m.Accepts) : ¬ m.IsTextLine := by
  intro htext
  cases m <;> first | exact htext | exact absurd h.canNest Bool.false_ne_true

theorem accepts_mapNested (f : Node → Node) (n : Node) :
    (n.mapNested f m).Accepts ↔ m.Accepts := by
  by_cases htext : m.IsTextLine
  · have hnot : ∀ k : Node, k.kind = .statement → ¬ k.Accepts := by
      intro k hk haccepts
      have hnest := haccepts.canNest
      rw [canNest, hk] at hnest
      cases hnest
    have hkind : m.kind = .statement ∧ (n.mapNested f m).kind = .statement := by
      cases m with
      | statement content p =>
        cases content <;> first | exact absurd htext id | (cases n <;> exact ⟨rfl, rfl⟩)
      | _ => exact absurd htext id
    exact iff_of_false (hnot _ hkind.2) (hnot _ hkind.1)
  · unfold Accepts
    rw [mapNested_eq f n htext, refusal?_mapLines]

theorem getLast?_children_mapLines (h : n.canNest) (hlast : n.children.getLast? = some m) :
    (n.mapLines f).children.getLast? = some (n.mapNested f m) := by
  rw [children_mapLines h, List.getLast?_map, hlast]
  rfl

/-- The open nodes of both trees are open at the same levels. -/
theorem accepts_lastAt_mapLines (f : Node → Node) (h : PathTo Accepts n depth) :
    ((n.mapLines f).lastAt depth).Accepts ↔ (n.lastAt depth).Accepts := by
  induction h with
  | here n =>
    unfold Accepts lastAt
    rw [refusal?_mapLines]
  | @step n last depth own hlast below ih =>
    simp only [lastAt, hlast, getLast?_children_mapLines own.canNest hlast]
    cases below with
    | here => exact accepts_mapNested f n
    | step own' =>
      rw [mapNested_eq f n own'.not_isTextLine]
      exact ih

/-- A statement that is added to a tree is added to the changed one. -/
theorem addChildAt_mapLines (h : PathTo Accepts n depth) (hend : (n.lastAt depth).Accepts)
    (hchild : ¬ child.IsTextLine) : (n.addChildAt depth child).mapLines f =
      (n.mapLines f).addChildAt depth (child.mapLines f) := by
  induction h with
  | here n =>
    have hnest : n.canNest := hend.canNest
    simp only [addChildAt, addChild, withChildren_mapLines hnest, children_mapLines hnest,
      List.map_append, List.map_singleton, mapNested_eq f n hchild]
  | @step n last depth own hlast below ih =>
    have hlast' := getLast?_children_mapLines (f := f) own.canNest hlast
    simp only [lastAt, hlast] at hend
    have haccepts : last.Accepts := by
      cases below with
      | here => exact hend
      | step own' => exact own'
    have hadded : ¬ (last.addChildAt depth child).IsTextLine :=
      ((sameHead_addChildAt last depth child).accepts_iff.mpr haccepts).not_isTextLine
    rw [addChildAt, addChildAt, hlast, hlast']
    simp only [withChildren_mapLines own.canNest, children_mapLines own.canNest, List.map_append,
      List.map_singleton, mapNested_eq f n hadded, mapNested_eq f n haccepts.not_isTextLine,
      ih hend, List.map_dropLast]

end MapLines

/-- A property of a node and of the statements nested in it. -/
inductive Throughout (P : Node → Prop) : Node → Prop where
  | intro {n : Node} (here : P n) (below : ∀ m ∈ n.children, Throughout P m) : Throughout P n

namespace Throughout
variable {P Q : Node → Prop} {n m child : Node} {depth : Nat}

theorem here (h : Throughout P n) : P n := by
  cases h with
  | intro here _ => exact here

theorem of_mem (h : Throughout P n) (hm : m ∈ n.children) : Throughout P m := by
  cases h with
  | intro _ below => exact below m hm

theorem imp (h : Throughout P n) (hpq : ∀ m, P m → Q m) : Throughout Q n := by
  induction h with
  | intro here _ ih => exact .intro (hpq _ here) ih

/-- What a node keeps when its last child is replaced or followed by one that is no line of a block
holds in a tree that takes one more statement. -/
theorem addChildAt
    (hadd : ∀ m cs c, m.Accepts → P m → cs ⊆ m.children → ¬ c.IsTextLine →
      P (m.withChildren (cs ++ [c])))
    (h : PathTo Accepts n depth) (hend : (n.lastAt depth).Accepts) (hn : n.Throughout P)
    (hchild : child.Throughout P) (htext : ¬ child.IsTextLine) :
    (n.addChildAt depth child).Throughout P := by
  induction h with
  | here n =>
    have hend : n.Accepts := hend
    have hchildren := children_withChildren hend.canNest (n.children ++ [child])
    refine .intro (hadd n _ _ hend hn.here (List.Subset.refl _) htext) fun m hm => ?_
    rw [Node.addChildAt, addChild, hchildren] at hm
    rcases List.mem_append.mp hm with hm | hm
    · exact hn.of_mem hm
    · rwa [List.mem_singleton.mp hm]
  | @step n last depth own hlast below ih =>
    have hchildren := children_withChildren own.canNest
      (n.children.dropLast ++ [last.addChildAt depth child])
    simp only [lastAt, hlast] at hend
    have haccepts : last.Accepts := by
      cases below with
      | here => exact hend
      | step own' => exact own'
    have hadded : ¬ (last.addChildAt depth child).IsTextLine :=
      ((sameHead_addChildAt last depth child).accepts_iff.mpr haccepts).not_isTextLine
    rw [Node.addChildAt]
    simp only [hlast]
    refine .intro (hadd n _ _ own hn.here (List.dropLast_subset _) hadded) fun m hm => ?_
    rw [hchildren] at hm
    rcases List.mem_append.mp hm with hm | hm
    · exact hn.of_mem (List.dropLast_subset _ hm)
    · rw [List.mem_singleton.mp hm]
      exact ih hend (hn.of_mem (List.mem_of_getLast? hlast))

end Throughout

end TemplateTree.Node
