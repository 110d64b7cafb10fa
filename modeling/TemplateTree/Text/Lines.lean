import TemplateTree.Text.Blank

/-!
# Lines

A source is cut after every line break. The offset of a line counts the breaks before it, and its
text has lost a carriage return and line feed at the end; any other break stays in the text.
-/

set_option autoImplicit false

namespace TemplateTree.Text

/-- The characters that end a line. A carriage return and a line feed together end it once. -/
def isLineBreak (c : Char) : Bool :=
  let n := c.toNat
  (0x0a ≤ n && n ≤ 0x0d) || (0x1c ≤ n && n ≤ 0x1e) || n == 0x85 || n == 0x2028 || n == 0x2029

/-- The pieces of a source, each with its break at the end. -/
def splitLines : List Char → List (List Char)
  | [] => []
  | '\r' :: '\n' :: rest => ['\r', '\n'] :: splitLines rest
  | c :: rest =>
    if isLineBreak c then [c] :: splitLines rest
    else
      match splitLines rest with
      | [] => [[c]]
      | line :: lines => (c :: line) :: lines

/-- A piece keeps every character, so the pieces put together are the source. -/
theorem flatten_splitLines (cs : List Char) : (splitLines cs).flatten = cs := by
  fun_induction splitLines cs with
  | case1 => rfl
  | case2 rest ih => simp [ih]
  | case3 c rest _ _ ih => simp [ih]
  | case4 c rest _ _ h ih =>
    rw [h] at ih
    simp at ih
    simp [← ih]
  | case5 c rest _ _ line lines h ih =>
    rw [h] at ih
    simp at ih
    simp [← ih]

/-- The length of all lines, with one more for entering each. -/
def extent : List (List Char) → Nat
  | [] => 0
  | line :: lines => line.length + 1 + extent lines

/-- A line of a source: where it starts and what it says. -/
structure Line where
  offset : Nat
  text : List Char
  deriving DecidableEq, Repr

namespace Line

def stop (line : Line) : Nat := line.offset + line.text.length

def isReturn (c : Char) : Bool := c == '\r' || c == '\n'

/-- Lays pieces one after the other from `offset` on. -/
def place (offset : Nat) : List (List Char) → List Line
  | [] => []
  | raw :: rest => ⟨offset, dropRightWhile isReturn raw⟩ :: place (offset + raw.length) rest

def ofSource (source : List Char) : List Line := place 0 (splitLines source)

end Line

end TemplateTree.Text
