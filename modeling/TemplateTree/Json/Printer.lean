import TemplateTree.Json.Limits
import TemplateTree.Json.Value
import TemplateTree.Number.Shortest

/-!
# Writing JSON

A document on one line has a space after every comma and colon. An indented document has every
item and field on a line of its own; an empty list or object stays closed up. Only quotes,
backslashes, control characters and halves of surrogate pairs are escaped.
-/

set_option autoImplicit false

namespace TemplateTree.Json

/-- How a document is laid out: on one line, or with so many spaces for every level. -/
inductive Layout where
  | oneLine
  | indented (width : Nat)
  deriving DecidableEq, Repr

namespace Layout

/-- What stands between a bracket and the item next to it, for items of the given level. -/
def lineBreak (layout : Layout) (level : Nat) : List Char :=
  match layout with
  | oneLine => []
  | indented width => '\n' :: List.replicate (width * level) ' '

/-- What stands after the comma between two items of the given level. -/
def separator (layout : Layout) (level : Nat) : List Char :=
  match layout with
  | oneLine => [' ']
  | indented _ => layout.lineBreak level

end Layout

def escape (c : Char) : List Char :=
  if c == '"' || c == '\\' then ['\\', c]
  else if c == '\n' then ['\\', 'n']
  else if c == '\r' then ['\\', 'r']
  else if c == '\t' then ['\\', 't']
  else if c == '\x08' then ['\\', 'b']
  else if c == '\x0c' then ['\\', 'f']
  else if c.toNat < 0x20 then '\\' :: 'u' :: Text.hexDigits 4 c.toNat
  else [c]

def escapePoint : CodePoint → List Char
  | .char c => escape c
  | .half n => CodePoint.halfEscape n

/-- A string with its quotes, before `rest`. -/
def writeString (s : Str) (rest : List Char) : List Char :=
  '"' :: (s.points.flatMap escapePoint ++ '"' :: rest)

/-- A number that is no integer. Those without digits have names. -/
def writeReal (x : Binary64) : List Char :=
  x.text ['N', 'a', 'N'] ['I', 'n', 'f', 'i', 'n', 'i', 't', 'y']

def writeInt (i : Int) : List Char :=
  match i with
  | .ofNat n => Nat.toDigits 10 n
  | .negSucc n => '-' :: Nat.toDigits 10 (n + 1)

mutual

/-- A value whose line starts at the given level, before `rest`. -/
def write (layout : Layout) (level : Nat) : Value → List Char → List Char
  | .null, rest => 'n' :: 'u' :: 'l' :: 'l' :: rest
  | .bool true, rest => 't' :: 'r' :: 'u' :: 'e' :: rest
  | .bool false, rest => 'f' :: 'a' :: 'l' :: 's' :: 'e' :: rest
  | .int i, rest => writeInt i ++ rest
  | .real x, rest => writeReal x ++ rest
  | .str s, rest => writeString s rest
  | .list [], rest => '[' :: ']' :: rest
  | .list (item :: items), rest =>
    '[' :: (layout.lineBreak (level + 1) ++ write layout (level + 1) item
      (writeItems layout (level + 1) items (layout.lineBreak level ++ ']' :: rest)))
  | .object [], rest => '{' :: '}' :: rest
  | .object ((key, value) :: fields), rest =>
    '{' :: (layout.lineBreak (level + 1) ++ writeString key (':' :: ' ' ::
      write layout (level + 1) value
        (writeFields layout (level + 1) fields (layout.lineBreak level ++ '}' :: rest))))

def writeItems (layout : Layout) (level : Nat) : List Value → List Char → List Char
  | [], rest => rest
  | item :: items, rest =>
    ',' :: (layout.separator level ++ write layout level item (writeItems layout level items rest))

/-- Every field after the first, with the comma before it. -/
def writeFields (layout : Layout) (level : Nat) : List (Str × Value) → List Char → List Char
  | [], rest => rest
  | (key, value) :: fields, rest =>
    ',' :: (layout.separator level ++ writeString key (':' :: ' ' ::
      write layout level value (writeFields layout level fields rest)))

end

inductive WriteError where
  | tooDeep
  | tooManyDigits
  deriving DecidableEq, Repr

namespace WriteError

/-- The text of an error about a number; the other one has none. -/
def message? : WriteError → Option String
  | tooDeep => none
  | tooManyDigits => some (tooManyDigitsText "")

end WriteError

mutual

/-- Holds a value that stands in so many lists and objects against the limits. -/
def check (depth : Nat) : Value → Except WriteError Unit
  | .int i =>
    if (Nat.toDigits 10 i.natAbs).length ≤ maxDigits then .ok () else .error .tooManyDigits
  | .list items => if depth < maxDepth then checkItems (depth + 1) items else .error .tooDeep
  | .object fields => if depth < maxDepth then checkFields (depth + 1) fields else .error .tooDeep
  | _ => .ok ()

def checkItems (depth : Nat) : List Value → Except WriteError Unit
  | [] => .ok ()
  | item :: items => do
    check depth item
    checkItems depth items

def checkFields (depth : Nat) : List (Str × Value) → Except WriteError Unit
  | [] => .ok ()
  | (_, value) :: fields => do
    check depth value
    checkFields depth fields

end

def print (layout : Layout) (v : Value) : Except WriteError String := do
  check 0 v
  return String.ofList (write layout 0 v [])

end TemplateTree.Json
