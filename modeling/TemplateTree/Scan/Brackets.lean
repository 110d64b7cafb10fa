/-!
# Bracketed conditions

A condition is a balanced group of square brackets with no empty pair in it.
-/

set_option autoImplicit false

namespace TemplateTree.Scan

/-- The number of characters up to the bracket that closes `depth` groups, the bracket included. -/
def closingBracket : Nat → List Char → Option Nat
  | _, [] => none
  | depth, '[' :: rest =>
    match rest with
    | ']' :: _ => none
    | _ => (closingBracket (depth + 1) rest).map (· + 1)
  | depth, ']' :: rest =>
    if depth ≤ 1 then some 1 else (closingBracket (depth - 1) rest).map (· + 1)
  | depth, _ :: rest => (closingBracket depth rest).map (· + 1)

/-- The length of the group that a text starts with, when there is one. -/
def brackets : List Char → Option Nat
  | '[' :: rest => closingBracket 0 ('[' :: rest)
  | _ => none

end TemplateTree.Scan
