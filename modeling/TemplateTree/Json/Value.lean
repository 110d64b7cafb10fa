import TemplateTree.Number.Binary64
import TemplateTree.Str

/-!
# Data values

What a serialized tree is written in: the values of JSON, with integers apart from other numbers. An
object keeps its fields in the order in which they were first given, one field for each key.
-/

set_option autoImplicit false

namespace TemplateTree

inductive Value where
  | null
  | bool (b : Bool)
  | int (i : Int)
  | real (x : Binary64)
  | str (s : Str)
  | list (items : List Value)
  | object (fields : List (Str × Value))
  deriving Inhabited, Repr

namespace Value

abbrev Fields := List (Str × Value)

/-- The value of a key. -/
def Fields.get? (fields : Fields) (key : Str) : Option Value := fields.lookup key

/-- Gives a key a value. A key that is there keeps its place; a new one goes to the end. -/
def Fields.put (fields : Fields) (key : Str) (value : Value) : Fields :=
  match fields with
  | [] => [(key, value)]
  | (k, v) :: rest => if k = key then (key, value) :: rest else (k, v) :: Fields.put rest key value

theorem Fields.get?_put_self (fields : Fields) (key : Str) (value : Value) :
    Fields.get? (Fields.put fields key value) key = some value := by
  induction fields with
  | nil => simp [put, get?]
  | cons field rest ih =>
    obtain ⟨k, v⟩ := field
    unfold put
    split
    · simp [get?]
    · next h =>
      have h' : ¬ key = k := fun e => h e.symm
      have hb : (key == k) = false := by simpa using h'
      rw [get?, List.lookup_cons, hb]
      exact ih

/-- The field of a key, when the value is an object that has it. -/
def get? : Value → Str → Option Value
  | .object fields, key => Fields.get? fields key
  | _, _ => none

/-- Zero, the empty text, the empty list, the empty object, `false` and `null` are false. -/
def isTrue : Value → Bool
  | .null => false
  | .bool b => b
  | .int i => i != 0
  | .real x => !x.isZero
  | .str s => s != ""
  | .list items => !items.isEmpty
  | .object fields => !fields.isEmpty

/-- The number that a value stands for: a truth value stands for one or zero. -/
def toInt? : Value → Option Int
  | .int i => some i
  | .bool b => some (if b then 1 else 0)
  | _ => none

/-- The integer that a value equals, if it equals one. -/
def exactInt? : Value → Option Int
  | .real x => x.toInt?
  | v => v.toInt?

def isNull : Value → Bool
  | .null => true
  | _ => false

mutual

/-- Equality of what values say. A truth value equals its number, numbers of both kinds compare, and
the order of the fields of an object does not matter. -/
def equal : Value → Value → Bool
  | .null, .null => true
  | .str s, .str t => s == t
  | .list xs, .list ys => equalItems xs ys
  | .object fs, .object gs => fs.length == gs.length && equalFields fs gs
  | .int i, v => v.exactInt? == some i
  | .bool b, v => v.exactInt? == some (if b then 1 else 0)
  | .real x, .real y => x.equal y
  | .real x, v => v.toInt?.isSome && v.toInt? == x.toInt?
  | _, _ => false

def equalItems : List Value → List Value → Bool
  | [], [] => true
  | x :: xs, y :: ys => equal x y && equalItems xs ys
  | _, _ => false

/-- Every field of the first list is in the second. -/
def equalFields : List (Str × Value) → List (Str × Value) → Bool
  | [], _ => true
  | (k, v) :: rest, gs =>
    (match gs.lookup k with
      | some w => equal v w
      | none => false) && equalFields rest gs

end

end Value

end TemplateTree
