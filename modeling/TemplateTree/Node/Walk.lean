import TemplateTree.Json.Display
import TemplateTree.Node.Basic

/-!
# Walking trees

A walk keeps a list of nodes that wait. A visit of a node puts off the nodes below it, and once it is
over they are put in front of the list, so they come before anything that waited already. Outside a
walk nothing can be put off, and each of them gets a walk of its own at once. A visitor decides for
each kind of node whether to go on below it, to stop there, or to walk its content and children
before it is done with; walks that start while another one is running keep what that one has put off.
-/

set_option autoImplicit false

namespace TemplateTree

/-- What a visitor does with the nodes below a node. -/
inductive Visit where
  /-- Reports the node and leaves what is below it to the walk. -/
  | descend
  /-- Neither reports the node nor goes below it. -/
  | skip
  /-- Does not report the node, and walks its content and its children at once. -/
  | eager
  deriving DecidableEq, Repr

inductive Event where
  | enter (n : Node)
  | report (n : Node)
  | leave (n : Node)

namespace Node

mutual

def count : Node → Nat
  | root cs _ => countAll cs + 1
  | tag _ as _ c cs _ => countAll as + countOptional c + countAll cs + 1
  | tagAttribute n v _ => count n + countOptional v + 1
  | tagAttributeList v _ => count v + 1
  | tagAttributeInterpolation v _ => count v + 1
  | doctype .. => 1
  | comment _ _ c cs _ => countOptional c + countAll cs + 1
  | text .. => 1
  | interpolatedString cs _ _ => countAll cs + 1
  | insert .. => 1
  | run _ cs _ => countAll cs + 1
  | statement c _ => count c + 1
  | filter _ cs _ => countAll cs + 1
  | objectRefClass o q _ => count o + countOptional q + 1
  | objectRefId o q _ => count o + countOptional q + 1

def countAll : List Node → Nat
  | [] => 0
  | n :: ns => count n + countAll ns

def countOptional : Option Node → Nat
  | none => 0
  | some n => count n

end

theorem countAll_append (ns ms : List Node) : countAll (ns ++ ms) = countAll ns + countAll ms := by
  induction ns with
  | nil => simp [countAll]
  | cons n ns ih => simp [countAll, ih, Nat.add_assoc]

theorem countAll_toList (n : Option Node) : countAll n.toList = countOptional n := by
  cases n <;> simp [countAll, countOptional]

theorem count_pos (n : Node) : 0 < n.count := by
  cases n <;> simp [count]

theorem countAll_subnodes (n : Node) : countAll n.subnodes + 1 = n.count := by
  cases n <;> simp [subnodes, count, countAll, countAll_append, countAll_toList, Nat.add_assoc]

def inner (n : Node) : List Node := n.content?.toList ++ n.children

theorem countAll_inner_lt (n : Node) : countAll n.inner < n.count := by
  rw [inner, countAll_append, countAll_toList]
  cases n <;> simp only [content?, children, count, countAll, countOptional] <;> omega

end Node

/-- A walker with the nodes that the visit in progress has put off, and all that it has recorded.
Outside a walk there is nowhere to put nodes off to. -/
structure Walker where
  scheduled : Option (List Node)
  events : List Event

namespace Walker
open Node (countAll)

def start : Walker := ⟨none, []⟩

def record (e : Event) (w : Walker) : Walker := { w with events := w.events ++ [e] }

/-- How many nodes are put off, with all below them. -/
def load (w : Walker) : Nat := countAll (w.scheduled.getD [])

@[simp] theorem load_record (e : Event) (w : Walker) : (w.record e).load = w.load := rfl

theorem load_of_scheduled {w w' : Walker} (h : w'.scheduled = w.scheduled) : w'.load = w.load := by
  rw [load, load, h]

mutual

/-- Visits a node. What the visit puts off is less than the node. -/
def visit (v : Kind → Visit) (n : Node) (w : Walker) : { w' : Walker // w'.load < w.load + n.count } :=
  match v n.kind with
  | .descend =>
    let w' := walkOn v n.subnodes ((w.record (.enter n)).record (.report n))
    ⟨w'.1.record (.leave n), by
      have hload := w'.2
      have hcount := n.countAll_subnodes
      simp only [load_record] at hload ⊢
      omega⟩
  | .skip => ⟨(w.record (.enter n)).record (.leave n), by
      have hcount := n.count_pos
      simp only [load_record]
      omega⟩
  | .eager =>
    let w' := walkEach v n.inner (w.record (.enter n))
    ⟨w'.1.record (.leave n), by
      have hload := load_of_scheduled w'.2
      have hcount := n.count_pos
      simp only [load_record] at hload ⊢
      omega⟩
termination_by 5 * n.count
decreasing_by
  · have := n.countAll_subnodes
    omega
  · have := n.countAll_inner_lt
    omega

/-- Puts nodes off in a walk, and walks them at once outside of one. -/
def walkOn (v : Kind → Visit) (ns : List Node) (w : Walker) :
    { w' : Walker // w'.load ≤ w.load + countAll ns } :=
  match h : w.scheduled with
  | some later => ⟨{ w with scheduled := some (later ++ ns) }, by
      simp [load, h, Node.countAll_append]⟩
  | none =>
    let w' := walkEach v ns w
    ⟨w'.1, by
      have hload := load_of_scheduled w'.2
      omega⟩
termination_by 5 * countAll ns + 4

/-- Walks a node and all that is below it, and then leaves to the visit in progress what it has put
off. -/
def walk (v : Kind → Visit) (n : Node) (w : Walker) : { w' : Walker // w'.scheduled = w.scheduled } :=
  ⟨{ walkPending v [n] w with scheduled := w.scheduled }, rfl⟩
termination_by 5 * n.count + 2
decreasing_by
  simp only [countAll]
  omega

/-- The walk over the nodes that wait. -/
def walkPending (v : Kind → Visit) (waiting : List Node) (w : Walker) : Walker :=
  match waiting with
  | [] => w
  | n :: waiting =>
    match visit v n { w with scheduled := some [] } with
    | ⟨w', _⟩ => walkPending v (w'.scheduled.getD [] ++ waiting) w'
termination_by 5 * countAll waiting + 1
decreasing_by
  · simp only [countAll]
    omega
  · rename_i hload
    simp only [load, Option.getD_some, countAll] at hload
    simp only [Node.countAll_append, countAll]
    omega

def walkEach (v : Kind → Visit) (ns : List Node) (w : Walker) :
    { w' : Walker // w'.scheduled = w.scheduled } :=
  match ns with
  | [] => ⟨w, rfl⟩
  | n :: ns =>
    let w' := walk v n w
    let w'' := walkEach v ns w'.1
    ⟨w''.1, w''.2.trans w'.2⟩
termination_by 5 * countAll ns + 3
decreasing_by
  · simp only [countAll]
    omega
  · have := n.count_pos
    simp only [countAll]
    omega

end

end Walker

namespace Node

/-- The events of walks over nodes, one after the other. -/
def walk (visit : Kind → Visit) (ns : List Node) : List Event :=
  (Walker.walkEach visit ns .start).1.events

/-- The events of one visit outside a walk: what is below the node is walked before the visitor
method returns. -/
def accept (visit : Kind → Visit) (n : Node) : List Event := (Walker.visit visit n .start).1.events

/-- The nodes of a tree in the order in which a walk reports them. -/
def reported (n : Node) : List Node :=
  (walk (fun _ => .descend) [n]).filterMap fun
    | .report m => some m
    | _ => none

/-- The nodes of a tree whose kind is wanted. -/
def collect (wanted : Kind → Bool) (n : Node) : List Node :=
  n.reported.filter fun m => wanted m.kind

/-- What the inserts of a tree emit, in source order. -/
def insertContents (n : Node) : List Value :=
  n.reported.filterMap fun
    | insert content .. => some content
    | _ => none

end Node

namespace Kind

def visitorName : Kind → String
  | root => "visit_root"
  | tag => "visit_tag"
  | tagAttribute => "visit_tag_attribute"
  | tagAttributeList => "visit_tag_attribute_list"
  | tagAttributeInterpolation => "visit_tag_attribute_interpolation"
  | doctype => "visit_doctype"
  | comment => "visit_comment"
  | text => "visit_text"
  | interpolatedString => "visit_interpolated_string"
  | insert => "visit_insert"
  | run => "visit_run"
  | statement => "visit_statement"
  | filter => "visit_filter"
  | objectRefClass => "visit_object_ref_class"
  | objectRefId => "visit_object_ref_id"

end Kind

namespace Position

/-- A position on one line, or a hyphen for none. -/
def display : Option Position → String
  | none => "-"
  | some p => p.line.display ++ ":" ++ p.column.display ++ ":" ++ p.offset.display

end Position

end TemplateTree
