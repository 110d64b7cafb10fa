import TemplateTree.SyntaxError
import TemplateTree.Text.Blank

/-!
# Indentation

The first indented line of a document sets its unit: one character and a width. Every later line is
indented by a multiple of the width in the same character, at most one level deeper than the line
before it.
-/

set_option autoImplicit false

namespace TemplateTree

structure IndentUnit where
  char : Char
  width : Nat
  deriving DecidableEq, Repr

/-- The unit of a document, once it is known, and the levels of the last two lines. -/
structure Indent where
  unit : Option IndentUnit
  level : Nat
  previous : Nat
  deriving DecidableEq, Repr

namespace Indent

open SyntaxError (Cause)

def start : Indent := ⟨none, 0, 0⟩

/-- The level of an indented line in a document with a known unit. -/
def levelIn (unit : IndentUnit) (current : Nat) (char : Char) (length : Nat) : Except Cause Nat :=
  if char != unit.char then .error (.otherIndent char unit.char)
  else if length % unit.width != 0 then .error (.partialIndent length unit.width)
  else if length / unit.width > current + 1 then .error .deepIndent
  else .ok (length / unit.width)

/-- Takes the indentation of the next line. The level before it becomes the previous one, even when
the line is refused. -/
def check (indent : List Char) (atStart : Bool) (t : Indent) : Except Cause Nat × Indent :=
  let t := { t with previous := t.level }
  match indent with
  | [] => (.ok 0, { t with level := 0 })
  | char :: others =>
    if atStart then (.error .indentedStart, t)
    else if others.any (· != char) then (.error .mixedIndent, t)
    else
      match t.unit with
      | none => (.ok 1, { t with unit := some ⟨char, indent.length⟩, level := 1 })
      | some unit =>
        match levelIn unit t.level char indent.length with
        | .error cause => (.error cause, t)
        | .ok level => (.ok level, { t with level })

/-- The indentation of the lines that are `depth` levels below the last one. While no unit is known,
it is the first character of `line`, when that is a space or a tab. -/
def below (depth : Int) (line : List Char) (t : Indent) : List Char :=
  match t.unit with
  | some unit => List.replicate (unit.width * (t.level + depth)).toNat unit.char
  | none =>
    match line with
    | c :: _ => if Text.isIndent c then [c] else []
    | [] => []

end Indent

end TemplateTree
