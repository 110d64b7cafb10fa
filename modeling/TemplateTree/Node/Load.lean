import TemplateTree.Json.Display
import TemplateTree.Node.Basic

/-!
# Loading trees

An object is loaded after every object that it holds, directly or in a list, under any key but its
position; an earlier one is loaded first. `schedule` lists the objects in that order by a work list,
`build` keeps the finished nodes in a table by the places of their objects, and `assemble` makes one
node of an object whose own objects are finished. The first object that fails decides the error.
-/

set_option autoImplicit false

namespace TemplateTree

/-- Why data is no tree. -/
inductive LoadError where
  /-- The data is no object. -/
  | notObject
  /-- An object has no kind. -/
  | missingKind
  /-- No kind has this name. -/
  | unknownKind (name : Value)
  /-- The kind is a list or an object. -/
  | compoundKind
  | missingField (key : String)
  /-- Something else stands where a node has to be. -/
  | notNode
  /-- Something that has no items stands where a list of nodes has to be. -/
  | notList
  | badFlags (v : Value)
  | badEscaping (v : Value)
  /-- A position is neither an object nor `null`. -/
  | badPosition
  deriving Repr

namespace LoadError

/-- The text of an error; a missing field is named, and an error of shape has no text. -/
def message? : LoadError → Option Str
  | missingKind => some "Missing 'node_type' in serialized node"
  | unknownKind name => some (Str.append "Unknown node_type: " name.displayed)
  | missingField key => some key
  | badFlags v => some (.chars (v.literal ++ " is not a valid TagFlag"))
  | badEscaping v => some (.chars (v.literal ++ " is not a valid EscapingMode"))
  | notObject | compoundKind | notNode | notList | badPosition => none

end LoadError

/-- The field of an object whose own objects are finished. -/
inductive Slot where
  | plain (v : Value)
  | node (v : Value) (n : Node)
  | list (v : Value) (items : List (Option Node))

namespace Slot

/-- The data that the slot was made from. -/
def value : Slot → Value
  | plain v | node v _ | list v _ => v

def toNode : Slot → Except LoadError Node
  | node _ n => .ok n
  | _ => .error .notNode

def toOptionalNode : Slot → Except LoadError (Option Node)
  | plain .null => .ok none
  | slot => slot.toNode.map some

def itemToNode : Option Node → Except LoadError Node
  | some n => .ok n
  | none => .error .notNode

/-- The nodes of a list. A text has its characters for items and an object its keys, and none of
those is a node. -/
def toNodes : Slot → Except LoadError (List Node)
  | list _ items => items.mapM itemToNode
  | node _ _ => .error .notNode
  | plain (.str s) => if s == .chars "" then .ok [] else .error .notNode
  | plain _ => .error .notList

end Slot

namespace Value

mutual

/-- The number of objects in a value. -/
def objects : Value → Nat
  | .object fields => fieldObjects fields + 1
  | .list items => itemObjects items
  | _ => 0

def itemObjects : List Value → Nat
  | [] => 0
  | v :: rest => objects v + itemObjects rest

def fieldObjects : List (Str × Value) → Nat
  | [] => 0
  | (_, v) :: rest => objects v + fieldObjects rest

end

end Value

abbrev Slots := List (Str × Slot)

namespace Slots

def get? (slots : Slots) (key : Str) : Option Slot := slots.lookup key

def field (slots : Slots) (key : String) : Except LoadError Slot :=
  match slots.get? key with
  | some slot => .ok slot
  | none => .error (.missingField key)

def value (slots : Slots) (key : String) : Except LoadError Value := do
  return (← field slots key).value

def node (slots : Slots) (key : String) : Except LoadError Node := do
  (← field slots key).toNode

def optionalNode (slots : Slots) (key : String) : Except LoadError (Option Node) := do
  (← field slots key).toOptionalNode

def nodes (slots : Slots) (key : String) : Except LoadError (List Node) := do
  (← field slots key).toNodes

def flags (slots : Slots) (key : String) : Except LoadError TagFlags := do
  let v ← value slots key
  match v.toInt? with
  | some i => return .ofInt i
  | none =>
    match TagFlags.named.find? fun flag => v.equal (.int (Int.ofNat flag)) with
    | some flag => return flag
    | none => throw (.badFlags v)

def escaping (slots : Slots) (key : String) : Except LoadError Escaping := do
  let v ← value slots key
  match v with
  | .str (.chars s) =>
    match Escaping.ofName? s with
    | some e => return e
    | none => throw (.badEscaping v)
  | _ => throw (.badEscaping v)

def positionField (fields : Value.Fields) (key : String) : Except LoadError Value :=
  match Value.Fields.get? fields key with
  | some v => .ok v
  | none => .error (.missingField key)

/-- The position of a node; the offset is zero when it is not given. -/
def position (slots : Slots) : Except LoadError (Option Position) :=
  match (slots.get? "position").map Slot.value with
  | none | some .null => .ok none
  | some (.object fields) => do
    let line ← positionField fields "line"
    let column ← positionField fields "column"
    return some ⟨line, column, (Value.Fields.get? fields "offset").getD (.int 0)⟩
  | some _ => .error .badPosition

def kind (slots : Slots) : Except LoadError Kind :=
  match slots.get? "node_type" with
  | none | some (.plain .null) => .error .missingKind
  | some (.plain (.str (.chars s))) =>
    match Kind.ofTypeName? s with
    | some k => .ok k
    | none => .error (.unknownKind (.str s))
  | some (.plain v) => .error (.unknownKind v)
  | some _ => .error .compoundKind

end Slots

namespace Node

/-- The node of a kind whose position is still to be read. Fields are read in the order in which
they are written. -/
def ofSlots (slots : Slots) : Kind → Except LoadError (Option Position → Node)
  | .root => do
    return root (← slots.nodes "children")
  | .tag => do
    return tag (← slots.value "name") (← slots.nodes "attributes") (← slots.flags "flags")
      (← slots.optionalNode "content") (← slots.nodes "children")
  | .tagAttribute => do
    return tagAttribute (← slots.node "name") (← slots.optionalNode "value")
  | .tagAttributeList => do
    return tagAttributeList (← slots.node "value")
  | .tagAttributeInterpolation => do
    return tagAttributeInterpolation (← slots.node "value")
  | .doctype => do
    return doctype (← slots.value "doctype_id") (← slots.value "options")
  | .comment => do
    return comment (← slots.value "rendered") (← slots.value "condition")
      (← slots.optionalNode "content") (← slots.nodes "children")
  | .text => do
    return text (← slots.value "content")
  | .interpolatedString => do
    return interpolatedString (← slots.nodes "children") (← slots.escaping "escaping")
  | .insert => do
    return insert (← slots.value "content") (← slots.escaping "escaping")
      (← slots.value "preserve_whitespace")
  | .run => do
    return run (← slots.value "content") (← slots.nodes "children")
  | .statement => do
    return statement (← slots.node "content")
  | .filter => do
    return filter (← slots.value "name") (← slots.nodes "children")
  | .objectRefClass => do
    return objectRefClass (← slots.node "object_ref") (← slots.optionalNode "prefix")
  | .objectRefId => do
    return objectRefId (← slots.node "object_ref") (← slots.optionalNode "prefix")

/-- The node of an object whose own objects are finished. -/
def assemble (slots : Slots) : Except LoadError Node := do
  let kind ← slots.kind
  let node ← ofSlots slots kind
  return node (← slots.position)

/-- The objects that the items of a list are. -/
def objectItems (items : List Value) : List Value.Fields :=
  items.filterMap fun
    | .object fields => some fields
    | _ => none

/-- The objects that an object holds, in order. -/
def nested (fields : Value.Fields) : List Value.Fields :=
  fields.flatMap fun (key, v) =>
    if key == "position" then []
    else
      match v with
      | .object inner => [inner]
      | .list items => objectItems items
      | _ => []

/-- Hands out finished nodes to the items of a list. -/
def fillItems : List Value → List Node → List (Option Node) × List Node
  | [], ns => ([], ns)
  | .object _ :: rest, n :: ns =>
    let (slots, left) := fillItems rest ns
    (some n :: slots, left)
  | _ :: rest, ns =>
    let (slots, left) := fillItems rest ns
    (none :: slots, left)

/-- Hands out the nodes of `nested fields` to the fields that they come from. -/
def fill : Value.Fields → List Node → Slots
  | [], _ => []
  | (key, v) :: rest, ns =>
    if key == "position" then (key, .plain v) :: fill rest ns
    else
      match v, ns with
      | .object _, n :: ns => (key, .node v n) :: fill rest ns
      | .list items, ns =>
        let (slots, left) := fillItems items ns
        (key, .list v slots) :: fill rest left
      | _, ns => (key, .plain v) :: fill rest ns

/-- The number of objects in the objects of a work list. -/
def objectsIn : List Value.Fields → Nat
  | [] => 0
  | fields :: work => Value.fieldObjects fields + 1 + objectsIn work

theorem objectsIn_append (work others : List Value.Fields) :
    objectsIn (work ++ others) = objectsIn work + objectsIn others := by
  induction work with
  | nil => simp [objectsIn]
  | cons fields work ih => simp only [List.cons_append, objectsIn, ih, Nat.add_assoc]

theorem objectsIn_reverse (work : List Value.Fields) :
    objectsIn work.reverse = objectsIn work := by
  induction work with
  | nil => rfl
  | cons fields work ih =>
    simp only [List.reverse_cons, objectsIn_append, objectsIn, ih]
    omega

theorem objectsIn_objectItems (items : List Value) :
    objectsIn (objectItems items) ≤ Value.itemObjects items := by
  induction items with
  | nil => simp [objectItems, objectsIn, Value.itemObjects]
  | cons v rest ih =>
    cases v <;> simp_all [objectItems, objectsIn, Value.itemObjects, Value.objects]
    omega

theorem objectsIn_nested (fields : Value.Fields) :
    objectsIn (nested fields) ≤ Value.fieldObjects fields := by
  induction fields with
  | nil => simp [nested, objectsIn, Value.fieldObjects]
  | cons field rest ih =>
    obtain ⟨key, v⟩ := field
    simp only [nested, List.flatMap_cons, objectsIn_append, Value.fieldObjects]
    simp only [nested] at ih
    refine Nat.add_le_add ?_ ih
    split
    · simp [objectsIn]
    · cases v with
      | object inner => simp [Value.objects, objectsIn]
      | list items => simpa [Value.objects] using objectsIn_objectItems items
      | _ => simp [objectsIn]

/-- An object where it stands in the data. Its place is the way down to it, the last step first; a
step is a number among the objects that the object above holds. -/
structure Occurrence where
  place : List Nat
  fields : Value.Fields

/-- The objects that an object holds, in order. -/
def Occurrence.held (o : Occurrence) : List Occurrence :=
  (nested o.fields).mapIdx fun k fields => ⟨k :: o.place, fields⟩

theorem Occurrence.map_fields_held (o : Occurrence) : o.held.map fields = nested o.fields := by
  apply List.ext_getElem <;> simp [held]

/-- Lists the objects of a work list and all they hold, each after the ones that it holds. -/
def schedule : List Occurrence → List Occurrence → List Occurrence
  | [], done => done
  | o :: work, done => schedule (o.held.reverse ++ work) (o :: done)
termination_by work => objectsIn (work.map Occurrence.fields)
decreasing_by
  have := objectsIn_nested o.fields
  simp only [List.map_append, List.map_reverse, Occurrence.map_fields_held, List.map_cons,
    objectsIn_append, objectsIn_reverse, objectsIn] at *
  omega

/-- The nodes of finished objects by the places of the objects, the last one first. -/
abbrev Built := List (List Nat × Node)

/-- Finishes one object. The objects that it holds are finished. -/
def build (built : Built) (o : Occurrence) : Except LoadError Built := do
  let held := o.held.filterMap fun inner => built.lookup inner.place
  let node ← assemble (fill o.fields held)
  return (o.place, node) :: built

/-- The tree that data describes. -/
def ofValue : Value → Except LoadError Node
  | .object fields => do
    let built ← (schedule [⟨[], fields⟩] []).foldlM build []
    match built.lookup [] with
    | some node => return node
    | none => throw .notObject
  | _ => .error .notObject

end Node

end TemplateTree
