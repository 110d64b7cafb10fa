/-!
# Blank characters

The characters that pad a line or separate its words, and the lists of characters that are left
when they are removed from an end.
-/

set_option autoImplicit false

namespace TemplateTree.Text

/-- The blank characters: the control characters that move the print position, the four
information separators, the space, and the space separators of the other scripts. -/
def isBlank (c : Char) : Bool :=
  let n := c.toNat
  (0x09 ≤ n && n ≤ 0x0d) || (0x1c ≤ n && n ≤ 0x20) || n == 0x85 || n == 0xa0 || n == 0x1680 ||
    (0x2000 ≤ n && n ≤ 0x200a) || n == 0x2028 || n == 0x2029 || n == 0x202f || n == 0x205f ||
    n == 0x3000

def isIndent (c : Char) : Bool := c == ' ' || c == '\t'

/-- Removes the longest tail whose characters all satisfy `p`. -/
def dropRightWhile (p : Char → Bool) (cs : List Char) : List Char :=
  cs.foldr (fun c kept => if kept.isEmpty && p c then [] else c :: kept) []

def trimLeft (cs : List Char) : List Char := cs.dropWhile isBlank

def trimRight (cs : List Char) : List Char := dropRightWhile isBlank cs

def trim (cs : List Char) : List Char := trimRight (trimLeft cs)

def isBlankLine (cs : List Char) : Bool := cs.all isBlank

end TemplateTree.Text
