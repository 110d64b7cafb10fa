import TemplateTree.Json.Value
import TemplateTree.Number.Shortest

/-!
# Values in messages

A message shows a text as it is and quotes every other value as a literal.
-/

set_option autoImplicit false

namespace TemplateTree.Value

mutual

def literal : Value → String
  | .null => "None"
  | .bool true => "True"
  | .bool false => "False"
  | .int i => toString i
  | .real x => String.ofList (x.text ['n', 'a', 'n'] ['i', 'n', 'f'])
  | .str s => s.literal
  | .list items => "[" ++ ", ".intercalate (literals items) ++ "]"
  | .object fields => "\x7b" ++ ", ".intercalate (literalFields fields) ++ "\x7d"

def literals : List Value → List String
  | [] => []
  | item :: rest => literal item :: literals rest

def literalFields : List (Str × Value) → List String
  | [] => []
  | (key, value) :: rest => (key.literal ++ ": " ++ literal value) :: literalFields rest

end

/-- What a message says for a value. -/
def displayed : Value → Str
  | .str s => s
  | v => .chars v.literal

/-- How a message of characters shows a value. -/
def display (v : Value) : String := v.displayed.shown

def typeName : Value → String
  | .null => "NoneType"
  | .bool _ => "bool"
  | .int _ => "int"
  | .real _ => "float"
  | .str _ => "str"
  | .list _ => "list"
  | .object _ => "dict"

/-- The literal of a list of strings. -/
def literalNames (names : List Str) : String :=
  "[" ++ ", ".intercalate (names.map Str.literal) ++ "]"

end TemplateTree.Value
