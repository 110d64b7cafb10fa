import TemplateTree.Node.Basic

/-!
# Trees as data

A node is written as an object: the name of its kind, its fields in a fixed order, its position.
-/

set_option autoImplicit false

namespace TemplateTree

namespace Position

def toValue : Option Position → Value
  | none => .null
  | some p => .object [("line", p.line), ("column", p.column), ("offset", p.offset)]

end Position

namespace Node

/-- The object of a node with the given fields. -/
def pack (kind : Kind) (fields : Value.Fields) (position : Option Position) : Value :=
  .object ((("node_type" : Str), .str kind.typeName) :: fields ++
    [(("position" : Str), Position.toValue position)])

mutual

/-- The data of a tree. -/
def toValue : Node → Value
  | root cs p => pack .root [("children", .list (toValues cs))] p
  | tag name as flags c cs p =>
    pack .tag [("name", name), ("attributes", .list (toValues as)), ("flags", .int flags),
      ("content", toOptionalValue c), ("children", .list (toValues cs))] p
  | tagAttribute n v p =>
    pack .tagAttribute [("name", toValue n), ("value", toOptionalValue v)] p
  | tagAttributeList v p => pack .tagAttributeList [("value", toValue v)] p
  | tagAttributeInterpolation v p => pack .tagAttributeInterpolation [("value", toValue v)] p
  | doctype id options p => pack .doctype [("doctype_id", id), ("options", options)] p
  | comment rendered condition c cs p =>
    pack .comment [("rendered", rendered), ("condition", condition),
      ("content", toOptionalValue c), ("children", .list (toValues cs))] p
  | text c p => pack .text [("content", c)] p
  | interpolatedString cs e p =>
    pack .interpolatedString [("children", .list (toValues cs)), ("escaping", .str e.name)] p
  | insert c e w p =>
    pack .insert [("content", c), ("escaping", .str e.name), ("preserve_whitespace", w)] p
  | run c cs p => pack .run [("content", c), ("children", .list (toValues cs))] p
  | statement c p => pack .statement [("content", toValue c)] p
  | filter name cs p => pack .filter [("name", name), ("children", .list (toValues cs))] p
  | objectRefClass o q p =>
    pack .objectRefClass [("object_ref", toValue o), ("prefix", toOptionalValue q)] p
  | objectRefId o q p =>
    pack .objectRefId [("object_ref", toValue o), ("prefix", toOptionalValue q)] p

def toValues : List Node → List Value
  | [] => []
  | n :: ns => toValue n :: toValues ns

def toOptionalValue : Option Node → Value
  | none => .null
  | some n => toValue n

end

theorem toValues_eq_map (ns : List Node) : toValues ns = ns.map toValue := by
  induction ns with
  | nil => rfl
  | cons n ns ih => simp [toValues, ih]

end Node

end TemplateTree
