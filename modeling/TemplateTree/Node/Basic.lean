import TemplateTree.Json.Value

/-!
# Template trees

A template is a tree of fifteen kinds of nodes. A plain field (a name, a text, a switch) holds a
data value: reading a template puts texts and truth values there, loading a serialized tree keeps
whatever the data gives. `subnodes` lists the nodes below a node in source order.
-/

set_option autoImplicit false

namespace TemplateTree

/-- Where a node starts: line and column from one on, and characters from the start of the
source. -/
structure Position where
  line : Value
  column : Value
  offset : Value
  deriving Inhabited, Repr

namespace Position

def of (line column offset : Int) : Position := ⟨.int line, .int column, .int offset⟩

def equal (p q : Position) : Bool :=
  p.line.equal q.line && p.column.equal q.column && p.offset.equal q.offset

end Position

/-- The output escaping that an expression or string asks for. -/
inductive Escaping where
  | inherit
  | enabled
  | disabled
  deriving DecidableEq, Inhabited, Repr

namespace Escaping

def name : Escaping → String
  | inherit => "inherit"
  | enabled => "enabled"
  | disabled => "disabled"

def ofName? (s : String) : Option Escaping :=
  [inherit, enabled, disabled].find? (·.name == s)

theorem ofName?_name (e : Escaping) : ofName? e.name = some e := by
  cases e <;> decide

end Escaping

/-- The modifiers of a tag as a set of bits: one closes the tag itself, two removes the white space
inside, four the white space around it. -/
abbrev TagFlags := Nat

namespace TagFlags

def none : TagFlags := 0
def selfClose : TagFlags := 1
def removeInner : TagFlags := 2
def removeOuter : TagFlags := 4

/-- The sets of at most one modifier, which have names. -/
def named : List TagFlags := [none, selfClose, removeInner, removeOuter]

def isSelfClosing (flags : TagFlags) : Bool := flags % 2 == 1

/-- The flags of an integer. A negative one counts back from eight as far as that goes, and from
the next power of two beyond. -/
def ofInt (i : Int) : TagFlags :=
  match i with
  | .ofNat n => n
  | .negSucc n => if n < 8 then 7 - n else Nat.pow 2 (Nat.log2 (n + 1) + 1) - (n + 1)

end TagFlags

/-- The kinds of nodes. -/
inductive Kind where
  | root
  | tag
  | tagAttribute
  | tagAttributeList
  | tagAttributeInterpolation
  | doctype
  | comment
  | text
  | interpolatedString
  | insert
  | run
  | statement
  | filter
  | objectRefClass
  | objectRefId
  deriving DecidableEq, Inhabited, Repr

namespace Kind

def all : List Kind :=
  [root, tag, tagAttribute, tagAttributeList, tagAttributeInterpolation, doctype, comment, text,
    interpolatedString, insert, run, statement, filter, objectRefClass, objectRefId]

/-- The name of a kind in serialized trees. -/
def typeName : Kind → String
  | root => "Root"
  | tag => "Tag"
  | tagAttribute => "TagAttribute"
  | tagAttributeList => "TagAttributeList"
  | tagAttributeInterpolation => "TagAttributeInterpolation"
  | doctype => "Doctype"
  | comment => "Comment"
  | text => "Text"
  | interpolatedString => "InterpolatedString"
  | insert => "Insert"
  | run => "Run"
  | statement => "Statement"
  | filter => "Filter"
  | objectRefClass => "ObjectRefClass"
  | objectRefId => "ObjectRefId"

/-- The name of a kind in error messages. -/
def label : Kind → String
  | root => "root"
  | tag => "tag"
  | tagAttribute => "tag attribute"
  | tagAttributeList => "tag attribute list"
  | tagAttributeInterpolation => "tag attribute interpolation"
  | doctype => "doctype"
  | comment => "comment"
  | text => "text"
  | interpolatedString => "interpolated string"
  | insert => "insert"
  | run => "run"
  | statement => "statement"
  | filter => "filter"
  | objectRefClass => "object reference class"
  | objectRefId => "object reference id"

def ofTypeName? (s : String) : Option Kind := all.find? (·.typeName == s)

theorem ofTypeName?_typeName (k : Kind) : ofTypeName? k.typeName = some k := by
  cases k <;> decide

/-- The kinds whose nodes own nested statements. -/
def canNest : Kind → Bool
  | root | tag | comment | run | filter => true
  | _ => false

/-- The kinds that take nested statements besides content on their own line. -/
def allowsNestingWithContent : Kind → Bool
  | run => true
  | _ => false

end Kind

inductive Node where
  | root (children : List Node) (position : Option Position)
  | tag (name : Value) (attributes : List Node) (flags : TagFlags) (content : Option Node)
      (children : List Node) (position : Option Position)
  | tagAttribute (name : Node) (value : Option Node) (position : Option Position)
  | tagAttributeList (value : Node) (position : Option Position)
  | tagAttributeInterpolation (value : Node) (position : Option Position)
  | doctype (id options : Value) (position : Option Position)
  | comment (rendered condition : Value) (content : Option Node) (children : List Node)
      (position : Option Position)
  | text (content : Value) (position : Option Position)
  | interpolatedString (children : List Node) (escaping : Escaping) (position : Option Position)
  | insert (content : Value) (escaping : Escaping) (preserveWhitespace : Value)
      (position : Option Position)
  | run (content : Value) (children : List Node) (position : Option Position)
  | statement (content : Node) (position : Option Position)
  | filter (name : Value) (children : List Node) (position : Option Position)
  | objectRefClass (object : Node) (qualifier : Option Node) (position : Option Position)
  | objectRefId (object : Node) (qualifier : Option Node) (position : Option Position)
  deriving Inhabited, Repr

namespace Node

def kind : Node → Kind
  | root .. => .root
  | tag .. => .tag
  | tagAttribute .. => .tagAttribute
  | tagAttributeList .. => .tagAttributeList
  | tagAttributeInterpolation .. => .tagAttributeInterpolation
  | doctype .. => .doctype
  | comment .. => .comment
  | text .. => .text
  | interpolatedString .. => .interpolatedString
  | insert .. => .insert
  | run .. => .run
  | statement .. => .statement
  | filter .. => .filter
  | objectRefClass .. => .objectRefClass
  | objectRefId .. => .objectRefId

def position : Node → Option Position
  | root _ p | tag _ _ _ _ _ p | tagAttribute _ _ p | tagAttributeList _ p
  | tagAttributeInterpolation _ p | doctype _ _ p | comment _ _ _ _ p | text _ p
  | interpolatedString _ _ p | insert _ _ _ p | run _ _ p | statement _ p | filter _ _ p
  | objectRefClass _ _ p | objectRefId _ _ p => p

/-- The ordered nodes that a node owns: nested statements, or the parts of a string. -/
def children : Node → List Node
  | root cs _ | tag _ _ _ _ cs _ | comment _ _ _ cs _ | interpolatedString cs _ _ | run _ cs _
  | filter _ cs _ => cs
  | _ => []

/-- Gives a node other children; a node that owns none stays as it is. -/
def withChildren (cs : List Node) : Node → Node
  | root _ p => root cs p
  | tag name attributes flags content _ p => tag name attributes flags content cs p
  | comment rendered condition content _ p => comment rendered condition content cs p
  | interpolatedString _ escaping p => interpolatedString cs escaping p
  | run content _ p => run content cs p
  | filter name _ p => filter name cs p
  | node => node

/-- The node given on the line of a node itself. -/
def content? : Node → Option Node
  | tag _ _ _ content _ _ | comment _ _ content _ _ => content
  | statement content _ => some content
  | _ => none

/-- The nodes directly below a node: attributes, or name and value, or object and qualifier; then
content; then children. -/
def subnodes : Node → List Node
  | root cs _ => cs
  | tag _ attributes _ content cs _ => attributes ++ content.toList ++ cs
  | tagAttribute name value _ => name :: value.toList
  | tagAttributeList value _ => [value]
  | tagAttributeInterpolation value _ => [value]
  | doctype .. => []
  | comment _ _ content cs _ => content.toList ++ cs
  | text .. => []
  | interpolatedString cs _ _ => cs
  | insert .. => []
  | run _ cs _ => cs
  | statement content _ => [content]
  | filter _ cs _ => cs
  | objectRefClass object qualifier _ => object :: qualifier.toList
  | objectRefId object qualifier _ => object :: qualifier.toList

def canNest (n : Node) : Bool := n.kind.canNest

/-- A tag or a comment that has content on its own line. -/
def hasContent : Node → Bool
  | tag _ _ _ content _ _ | comment _ _ content _ _ => content.isSome
  | _ => false

/-- Whether a tag closes itself; other nodes have no answer. -/
def selfClosing? : Node → Option Bool
  | tag _ _ flags _ _ _ => some flags.isSelfClosing
  | _ => none

def isSelfClosing (n : Node) : Bool := n.selfClosing? == some true

/-- The node that a statement wraps, and any other node itself. -/
def unwrap : Node → Node
  | statement content _ => content
  | n => n

/-- The name of a tag or a filter. -/
def name? : Node → Option Value
  | tag name .. | filter name .. => some name
  | _ => none

/-- Wraps a node that stands on a line of its own. -/
def wrap (n : Node) : Node := statement n n.position

def withEscaping (e : Escaping) : Node → Node
  | insert content _ preserve p => insert content e preserve p
  | interpolatedString cs _ p => interpolatedString cs e p
  | n => n

/-- Adds a last child. -/
def addChild (n child : Node) : Node := n.withChildren (n.children ++ [child])

theorem kind_withChildren (cs : List Node) (n : Node) : (n.withChildren cs).kind = n.kind := by
  cases n <;> rfl

end Node

end TemplateTree
