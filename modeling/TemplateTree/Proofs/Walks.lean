import Mathlib.Data.List.Basic
import TemplateTree.Node.Walk

/-!
# What walks record

A walk enters and reports the nodes of a tree in pre-order: a node, then what is below it, which are
attributes, or name and value, or object and qualifier; then content; then children. It makes no
difference whether a visit puts nodes off or walks them at once, nor whether the first visit belongs
to a walk.
-/

set_option autoImplicit false

namespace TemplateTree

@[simp] def Event.isLeave : Event → Bool
  | leave _ => true
  | _ => false

/-- The nodes that a walker has entered or reported, in order. -/
def Walker.entries (w : Walker) : List Event := w.events.filter fun e => !e.isLeave

namespace Node

section Gather
variable {β : Type} (f : Node → List β → List β → List β)

mutual

/-- What a tree comes to by recursion: what `f` makes of a node, of what the nodes below it come to
in order, and of what its content and children come to. -/
def gather : Node → List β
  | root cs p => f (root cs p) (gatherAll cs) (gatherAll cs)
  | tag name as flags c cs p =>
    f (tag name as flags c cs p) (gatherAll as ++ gatherOptional c ++ gatherAll cs)
      (gatherOptional c ++ gatherAll cs)
  | tagAttribute name value p =>
    f (tagAttribute name value p) (gather name ++ gatherOptional value) []
  | tagAttributeList value p => f (tagAttributeList value p) (gather value) []
  | tagAttributeInterpolation value p => f (tagAttributeInterpolation value p) (gather value) []
  | doctype id options p => f (doctype id options p) [] []
  | comment rendered condition c cs p =>
    f (comment rendered condition c cs p) (gatherOptional c ++ gatherAll cs)
      (gatherOptional c ++ gatherAll cs)
  | text content p => f (text content p) [] []
  | interpolatedString cs escaping p =>
    f (interpolatedString cs escaping p) (gatherAll cs) (gatherAll cs)
  | insert content escaping preserve p => f (insert content escaping preserve p) [] []
  | run content cs p => f (run content cs p) (gatherAll cs) (gatherAll cs)
  | statement c p => f (statement c p) (gather c) (gather c)
  | filter name cs p => f (filter name cs p) (gatherAll cs) (gatherAll cs)
  | objectRefClass object qualifier p =>
    f (objectRefClass object qualifier p) (gather object ++ gatherOptional qualifier) []
  | objectRefId object qualifier p =>
    f (objectRefId object qualifier p) (gather object ++ gatherOptional qualifier) []

def gatherAll : List Node → List β
  | [] => []
  | n :: ns => gather n ++ gatherAll ns

def gatherOptional : Option Node → List β
  | none => []
  | some n => gather n

end

variable {f}

theorem gatherAll_eq (ns : List Node) : gatherAll f ns = ns.flatMap (gather f) := by
  induction ns with
  | nil => rfl
  | cons n ns ih => rw [gatherAll, ih, List.flatMap_cons]

theorem gatherOptional_eq (n : Option Node) : gatherOptional f n = n.toList.flatMap (gather f) := by
  cases n <;> simp [gatherOptional]

theorem gather_eq (n : Node) :
    gather f n = f n (n.subnodes.flatMap (gather f)) (n.inner.flatMap (gather f)) := by
  cases n <;>
    simp [gather, gatherAll_eq, gatherOptional_eq, subnodes, inner, content?, children]

end Gather

/-- The nodes of a tree, each before the nodes below it. -/
def nodes : Node → List Node := gather fun n below _ => n :: below

/-- What a visitor records of a node, when it records `below` of the nodes below it and `inner` of
its content and children. -/
def told (v : Kind → Visit) (n : Node) (below inner : List Event) : List Event :=
  .enter n :: match v n.kind with
    | .descend => .report n :: below
    | .skip => []
    | .eager => inner

/-- What a visitor enters and reports of a tree, by recursion. -/
def preorder (v : Kind → Visit) : Node → List Event := gather (told v)

/-- The nodes that the visit of a node puts off in a walk. -/
def postponed (v : Kind → Visit) (n : Node) : List Node :=
  match v n.kind with
  | .descend => n.subnodes
  | .skip | .eager => []

variable {v : Kind → Visit}

theorem preorder_eq (n : Node) :
    preorder v n = told v n (n.subnodes.flatMap (preorder v)) (n.inner.flatMap (preorder v)) := gather_eq n

/-- The visit of a node in a walk records what it does not put off. -/
theorem preorder_eq_append (n : Node) :
    preorder v n = told v n [] (n.inner.flatMap (preorder v)) ++ (postponed v n).flatMap (preorder v) := by
  rw [preorder_eq, told, told, postponed]
  cases v n.kind <;> simp

end Node

namespace Walker
open Node

variable {v : Kind → Visit}

section Recording
variable (w : Walker)

@[simp] theorem scheduled_record (e : Event) : (w.record e).scheduled = w.scheduled := rfl

@[simp] theorem entries_record (e : Event) :
    (w.record e).entries = w.entries ++ if e.isLeave then [] else [e] := by
  cases e <;> simp [entries, record, Event.isLeave]

@[simp] theorem entries_scheduled (later : Option (List Node)) :
    { w with scheduled := later }.entries = w.entries := rfl

end Recording

theorem walkOn_within {w : Walker} {later : List Node} (ns : List Node)
    (h : w.scheduled = some later) :
    (walkOn v ns w).1 = { w with scheduled := some (later ++ ns) } := by
  rw [walkOn]
  split
  · rename_i h'
    obtain rfl := Option.some.inj (h'.symm.trans h)
    rfl
  · rename_i h'
    cases h'.symm.trans h

theorem walkOn_outside {w : Walker} (ns : List Node) (h : w.scheduled = none) :
    (walkOn v ns w).1 = (walkEach v ns w).1 := by
  rw [walkOn]
  split
  · rename_i h'
    cases h'.symm.trans h
  · rfl

mutual

/-- A visit in a walk puts off what is left to the walk, and records everything else. -/
theorem visit_within (n : Node) {w : Walker} {later : List Node} (h : w.scheduled = some later) :
    (visit v n w).1.scheduled = some (later ++ postponed v n) ∧
      (visit v n w).1.entries = w.entries ++ told v n [] (n.inner.flatMap (preorder v)) := by
  rw [visit, told, postponed]
  cases v n.kind with
  | descend => simp [walkOn_within (w := (w.record (.enter n)).record (.report n)) n.subnodes h]
  | skip => simp [h]
  | eager =>
    have hinner := entries_walkEach n.inner (w.record (.enter n))
    have hkept := (walkEach v n.inner (w.record (.enter n))).2
    simp [hinner, hkept, h]
termination_by 5 * n.count
decreasing_by
  have := n.countAll_inner_lt
  omega

theorem entries_walk (n : Node) (w : Walker) :
    (walk v n w).1.entries = w.entries ++ preorder v n := by
  rw [walk, entries_scheduled, entries_walkPending, List.flatMap_cons, List.flatMap_nil,
    List.append_nil]
termination_by 5 * n.count + 2
decreasing_by
  simp only [countAll]
  omega

theorem entries_walkPending (waiting : List Node) (w : Walker) :
    (walkPending v waiting w).entries = w.entries ++ waiting.flatMap (preorder v) := by
  cases waiting with
  | nil => simp [walkPending]
  | cons n waiting =>
    obtain ⟨hscheduled, hentries⟩ := visit_within n (w := { w with scheduled := some [] }) rfl
    rw [walkPending]
    rcases hw : visit v n { w with scheduled := some [] } with ⟨w', hload⟩
    rw [hw] at hscheduled hentries
    simp only [List.nil_append] at hscheduled
    -- What a visit puts off is less than its node, so less waits after the visit.
    have hless : countAll (postponed v n) < n.count := by
      simpa [load, hscheduled, countAll] using hload
    dsimp only
    rw [hscheduled, Option.getD_some, entries_walkPending, List.flatMap_append,
      List.flatMap_cons, preorder_eq_append, hentries]
    simp
termination_by 5 * countAll waiting + 1
decreasing_by
  · simp only [countAll]
    omega
  · simp only [countAll, countAll_append]
    omega

theorem entries_walkEach (ns : List Node) (w : Walker) :
    (walkEach v ns w).1.entries = w.entries ++ ns.flatMap (preorder v) := by
  cases ns with
  | nil => simp [walkEach]
  | cons n ns => rw [walkEach, entries_walkEach, entries_walk, List.flatMap_cons, List.append_assoc]
termination_by 5 * countAll ns + 3
decreasing_by
  · have := n.count_pos
    simp only [countAll]
    omega
  · simp only [countAll]
    omega

end

theorem visit_outside (n : Node) {w : Walker} (h : w.scheduled = none) :
    (visit v n w).1.entries = w.entries ++ preorder v n := by
  rw [visit, preorder_eq, told]
  cases v n.kind with
  | descend =>
    have hbelow := walkOn_outside (v := v) (w := (w.record (.enter n)).record (.report n)) n.subnodes h
    simp [hbelow, entries_walkEach]
  | skip => simp
  | eager => simp [entries_walkEach]

end Walker

namespace Node

def reportOf? : Event → Option Node
  | .report n => some n
  | _ => none

theorem nodes_eq (n : Node) : n.nodes = n :: n.subnodes.flatMap nodes := gather_eq n

theorem count_le_countAll {n : Node} {ns : List Node} (h : n ∈ ns) : n.count ≤ countAll ns := by
  obtain ⟨before, after, rfl⟩ := List.append_of_mem h
  rw [countAll_append, countAll]
  omega

/-- A visitor that goes on below every node reports all of them. -/
theorem reports_preorder (n : Node) :
    (preorder (fun _ => .descend) n).filterMap reportOf? = n.nodes := by
  have hbelow : ∀ m ∈ n.subnodes,
      (preorder (fun _ => .descend) m).filterMap reportOf? = m.nodes := fun m hm =>
    have hle := count_le_countAll hm
    have hcount := n.countAll_subnodes
    reports_preorder m
  rw [preorder_eq, nodes_eq, told]
  simp only [List.filterMap_cons, reportOf?, List.filterMap_flatMap]
  rw [List.flatMap_congr hbelow]
termination_by n.count

theorem entries_walk (v : Kind → Visit) (n : Node) :
    ((walk v [n]).filter fun e => !e.isLeave) = preorder v n := by
  have hwalk := Walker.entries_walkEach (v := v) [n] .start
  simpa [Walker.entries, Walker.start, walk] using hwalk

theorem entries_accept (v : Kind → Visit) (n : Node) :
    ((accept v n).filter fun e => !e.isLeave) = preorder v n :=
  Walker.visit_outside n rfl

/-- The nodes that a walk reports are all nodes of a tree. -/
theorem reported_eq_nodes (n : Node) : n.reported = n.nodes := by
  rw [← reports_preorder, ← entries_walk, List.filterMap_filter]
  refine congrArg (fun f => List.filterMap f _) (funext fun e => ?_)
  cases e <;> rfl

/-- A walk, and a visit outside of a walk, enter and report the nodes of a tree in pre-order.
Collecting takes every node once, in that order. -/
theorem walk_in_preorder (v : Kind → Visit) (wanted : Kind → Bool) (n : Node) :
    ((walk v [n]).filter fun e => !e.isLeave) = preorder v n ∧
      ((accept v n).filter fun e => !e.isLeave) = preorder v n ∧
      n.collect wanted = n.nodes.filter fun m => wanted m.kind :=
  ⟨entries_walk v n, entries_accept v n, congrArg _ n.reported_eq_nodes⟩

end Node

end TemplateTree
