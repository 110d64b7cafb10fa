import TemplateTree.Node.Basic
import TemplateTree.SyntaxError

/-!
# Outlines

A tree that grows by one statement after the other. A statement that is one level deeper than the
one before it becomes its child; for every level that it is higher up, one open ancestor is closed.

All nodes that can still get children lie on the path from the root along last children, so a node
is named by its depth on that path.
-/

set_option autoImplicit false

namespace TemplateTree

namespace Node

/-- The node `depth` steps down along last children. -/
def lastAt (n : Node) (depth : Nat) : Node :=
  match depth with
  | 0 => n
  | depth + 1 =>
    match n.children.getLast? with
    | some child => lastAt child depth
    | none => n

/-- Adds a child to the node `depth` steps down along last children. -/
def addChildAt (n : Node) (depth : Nat) (child : Node) : Node :=
  match depth with
  | 0 => n.addChild child
  | depth + 1 =>
    match n.children.getLast? with
    | some last => n.withChildren (n.children.dropLast ++ [addChildAt last depth child])
    | none => n

end Node

/-- A growing tree. `ancestors`, `parent` and `last` are depths along last children: the open
ancestors of the parent, innermost first, the node that gets the next statement of the same level,
and the statement that came last. -/
structure Outline where
  root : Node
  maxDepth : Value
  ancestors : List Nat
  parent : Nat
  last : Option Nat
  deriving Repr

namespace Outline

open SyntaxError (Cause)

inductive Refusal where
  | illegal (cause : Cause)
  | nothingOpen
  deriving Repr

def start (root : Node) (maxDepth : Value) : Outline := ⟨root, maxDepth, [], 0, none⟩

def depth (o : Outline) : Nat := o.ancestors.length

def parentNode (o : Outline) : Node := o.root.lastAt o.parent

def lastNode? (o : Outline) : Option Node := o.last.map o.root.lastAt

/-- The limit on open ancestors leaves room for one more. -/
def hasRoom (o : Outline) : Bool :=
  match o.maxDepth.toInt? with
  | some limit => (o.depth : Int) < limit
  | none => false

def descend (o : Outline) : Except Refusal Unit × Outline :=
  match o.last with
  | none => (.error (.illegal .nothingAbove), o)
  | some last =>
    if o.hasRoom then (.ok (), { o with ancestors := o.parent :: o.ancestors, parent := last })
    else (.error (.illegal (.tooManyLevels o.maxDepth)), o)

def ascend : Nat → Outline → Except Refusal Unit × Outline
  | 0, o => (.ok (), o)
  | count + 1, o =>
    match o.ancestors with
    | [] => (.error .nothingOpen, o)
    | parent :: ancestors => ascend count { o with ancestors, parent }

/-- Why a node takes no nested statements. -/
def refusal? (n : Node) : Option Cause :=
  if !n.canNest then some (.closedKind n.unwrap.kind.label)
  else if n.hasContent && !n.kind.allowsNestingWithContent then
    match n with
    | .tag name .. => some (.contentOfTag name)
    | _ => some .contentOfComment
  else if n.isSelfClosing then some .selfClosing
  else none

def attach (statement : Node) (o : Outline) : Except Refusal Unit × Outline :=
  match refusal? o.parentNode with
  | some cause => (.error (.illegal cause), o)
  | none =>
    (.ok (), { o with root := o.root.addChildAt o.parent statement, last := some (o.parent + 1) })

/-- Adds a statement of the given level after one of the level `previous`. Levels that were opened
or closed stay so when the statement is refused. -/
def insert (statement : Node) (level previous : Int) (o : Outline) :
    Except Refusal Unit × Outline :=
  let (moved, o) :=
    if previous < level then o.descend else ascend (previous - level).toNat o
  match moved with
  | .error refusal => (.error refusal, o)
  | .ok () => o.attach statement

end Outline

end TemplateTree
