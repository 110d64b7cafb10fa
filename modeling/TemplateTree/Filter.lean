import TemplateTree.Json.Display
import TemplateTree.Node.Walk

/-!
# Filters

The text of a filter block, and the transforms that turn such a text into output. A registry gives
every name of a filter a transform.
-/

set_option autoImplicit false

namespace TemplateTree

inductive TransformFailure where
  | refused (message : String) (filter : Option String)
  /-- The transform breaks with an error of another kind, shown in the given way. -/
  | broken (kind shown : String)
  deriving DecidableEq, Repr

/-- Turns the text of a block into output, with the options of the call. -/
structure Transform where
  run : String → Value → Except TransformFailure String

namespace Transform

def plain : Transform := ⟨fun content _ => .ok content⟩

/-- The lines of a script element; with `cdata`, the text is a commented section of its own. -/
def scriptLines (cdata : Bool) (content : String) : List String :=
  ["<script type=\"text/javascript\">"] ++ (if cdata then ["//<![CDATA["] else []) ++
    (if content == "" then [] else [content]) ++ (if cdata then ["//]]>"] else []) ++ ["</script>"]

/-- The `cdata` of the options of a call. Options that are false in some form say nothing, and
others have to be an object. -/
def cdataOf (options : Value) : Except TransformFailure (Option Bool) :=
  match options with
  | .object fields => .ok ((Value.Fields.get? fields "cdata").map Value.isTrue)
  | v =>
    if v.isTrue then
      .error (.broken "AttributeError"
        ("AttributeError(\"'" ++ v.typeName ++ "' object has no attribute 'get'\")"))
    else .ok none

/-- The text in a script element. The options of the call decide on `cdata` before the transform. -/
def javascript (cdata : Bool) : Transform :=
  ⟨fun content options => do
    return "\n".intercalate (scriptLines ((← cdataOf options).getD cdata) content)⟩

end Transform

/-- Why a filter has no output. -/
inductive FilterError where
  | unknown (name : Value)
  | compoundName
  | unexpectedNode (kind : Kind)
  | notText
  | transform (failure : TransformFailure)
  | failed (name : Value) (kind shown : String)
  deriving Repr

namespace FilterError

def message? : FilterError → Option String
  | unknown name => some ("Unknown filter: '" ++ name.display ++ "'")
  | unexpectedNode kind => some ("Unexpected node in filter block: " ++ kind.typeName)
  | transform (.refused message _) => some message
  | failed name _ shown => some ("Filter '" ++ name.display ++ "' failed: " ++ shown)
  | compoundName | notText | transform (.broken ..) => none

end FilterError

namespace Node

def joinTexts (separator : String) (texts : List Value) : Except FilterError String := do
  let texts ← texts.mapM fun
    | .str (.chars s) => Except.ok s
    | _ => .error .notText
  return separator.intercalate texts

mutual

/-- What a node of a filter block was written as. -/
def lineText : Node → Except FilterError Value
  | text content _ => .ok content
  | insert (.str (.chars s)) _ _ _ => .ok (.str ("#\x7b" ++ s ++ "\x7d"))
  | insert .. => .error .notText
  | interpolatedString cs _ _ => do return .str (← joinTexts "" (← lineTexts cs))
  | n => .error (.unexpectedNode n.kind)

def lineTexts : List Node → Except FilterError (List Value)
  | [] => .ok []
  | n :: ns => do return (← lineText n) :: (← lineTexts ns)

end

/-- The text of a filter block, one line of the block per line. -/
def filterContent (n : Node) : Except FilterError String := do
  joinTexts "\n" (← lineTexts (n.children.map unwrap))

end Node

/-- Transforms by name, in the order in which the names were first given. -/
structure Transforms where
  entries : List (String × Transform)

namespace Transforms

def empty : Transforms := ⟨[]⟩

def get? (ts : Transforms) (name : String) : Option Transform := ts.entries.lookup name

def register (ts : Transforms) (name : String) (t : Transform) : Transforms :=
  ⟨ts.entries.filter (·.1 != name) ++ [(name, t)]⟩

def unregister (ts : Transforms) (name : String) : Bool × Transforms :=
  ((ts.get? name).isSome, ⟨ts.entries.filter (·.1 != name)⟩)

def names (ts : Transforms) : List String := (ts.entries.map (·.1)).mergeSort (· ≤ ·)

/-- The transforms that every reader of templates knows. -/
def standard : Transforms :=
  (empty.register "plain" .plain).register "javascript" (.javascript false)

/-- The text of an error about something that is no transform. -/
def notTransform (name : String) (v : Value) : String :=
  "Transform for filter '" ++ name ++ "' must be a ContentTransform, got " ++ v.literal

def get (ts : Transforms) (name : Value) : Except FilterError Transform :=
  match name with
  | .str (.chars s) =>
    match ts.get? s with
    | some t => .ok t
    | none => .error (.unknown name)
  | .list _ | .object _ => .error .compoundName
  | _ => .error (.unknown name)

def transform (ts : Transforms) (name content : String) (options : Value) :
    Except FilterError String := do
  match (← ts.get (.str name)).run content options with
  | .ok output => return output
  | .error failure => throw (.transform failure)

def apply (ts : Transforms) (n : Node) (options : Value) : Except FilterError String := do
  let name := n.name?.getD .null
  let t ← ts.get name
  match t.run (← n.filterContent) options with
  | .ok output => return output
  | .error (.broken kind shown) => throw (.failed name kind shown)
  | .error failure => throw (.transform failure)

end Transforms

end TemplateTree
