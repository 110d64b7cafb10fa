import TemplateTree.Text.Blank

/-!
# Joined lines

A line that ends in a space and a bar goes on with the next such line. Blank lines between them are
passed over.
-/

set_option autoImplicit false

namespace TemplateTree.Text

/-- A line that may be joined to another one. -/
def isMultiline (line : List Char) : Bool := [' ', '|'].isSuffixOf (trimRight line)

/-- What the lines ahead add to a joined line, and how many of them it takes. -/
def joinTail : List (List Char) → List Char × Nat
  | [] => ([], 0)
  | line :: rest =>
    if isBlankLine line then
      let (text, count) := joinTail rest
      (text, count + 1)
    else if isMultiline line then
      let (text, count) := joinTail rest
      ((trim line).dropLast ++ text, count + 1)
    else ([], 0)

/-- A line that may be joined, with what the lines ahead add to it. -/
def joinLines (line tail : List Char) : List Char := trimRight ((trimRight line).dropLast ++ tail)

theorem joinTail_le (lines : List (List Char)) : (joinTail lines).2 ≤ lines.length := by
  fun_induction joinTail lines <;> simp_all

end TemplateTree.Text
