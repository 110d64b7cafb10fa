import TemplateTree.Node.Basic
import TemplateTree.Pattern.Basic
import TemplateTree.SyntaxError
import TemplateTree.Text.Index
import TemplateTree.Text.Lines

/-!
# Cursors

A cursor stands on a column of a line of a source. It starts before the first line and ends after
the last one. The line it reads may be replaced by another text, and the line that it reports may
be another one than the line it stands on. A pattern moves it over what the pattern matches.

Moved back far enough, a cursor stands before its line, at a column below zero. There it sees
characters of the end of the line, but a pattern starts with the line.
-/

set_option autoImplicit false

namespace TemplateTree

structure Cursor where
  filename : String
  firstLine : Int
  lines : List Text.Line
  /-- How many lines were entered; one more than there are, after the end. -/
  entered : Nat
  /-- The index of the line that positions are reported on. -/
  anchor : Int
  line : List Char
  /-- How much of the line has been read; below zero before the line. -/
  column : Int
  deriving Repr

namespace Cursor

def start (source : List Char) (filename : String) (firstLine : Int) : Cursor :=
  ⟨filename, firstLine, Text.Line.ofSource source, 0, -1, [], 0⟩

/-- The index of the line the cursor stands on, from minus one before the first. -/
def lineIndex (c : Cursor) : Int := (c.entered : Int) - 1

def ahead (c : Cursor) : List Text.Line := c.lines.drop c.entered

def rest (c : Cursor) : List Char := Text.tail c.line c.column

/-- A bound for the steps that the rest of the source allows: the columns up to the end of the line,
and every line ahead with one more for entering it. -/
def remaining (c : Cursor) : Nat :=
  (c.line.length - c.column).toNat + Text.extent (c.ahead.map (·.text))

def peekLine (c : Cursor) : Option (List Char) := (c.lines[c.entered]?).map (·.text)

/-- Enters the next line, or moves past the end. -/
def nextLine (c : Cursor) : Bool × Cursor :=
  match c.lines[c.entered]? with
  | some line =>
    (true, { c with entered := c.entered + 1, anchor := c.entered, line := line.text, column := 0 })
  | none =>
    let count := c.lines.length
    (false, { c with entered := count + 1, anchor := count, line := [], column := 0 })

/-- Reads another text in place of the line, reported on the given line. -/
def replaceLine (text : List Char) (anchor : Int) (c : Cursor) : Cursor :=
  { c with line := text, column := 0, anchor }

/-- The character at the column; there is none at the end of the line. -/
def peekChar (c : Cursor) : Except Text.Outside (Option Char) := Text.charAt? c.line c.column

def isEnd (c : Cursor) : Bool := c.line.length ≤ c.column

/-- Moves by so many characters, or up to the end of the line. -/
def skip (count : Int) (c : Cursor) : Cursor :=
  { c with column := min (c.column + count) c.line.length }

/-- The cursor itself, or the start of the line for a cursor before it. -/
def inLine (c : Cursor) : Cursor := { c with column := max c.column 0 }

theorem inLine_of_nonneg {c : Cursor} (h : 0 ≤ c.column) : c.inLine = c := by
  simp [inLine, Int.max_eq_left h]

def skipRest (c : Cursor) : Cursor := { c with column := c.line.length }

/-- A cursor does not move backwards. -/
structure Backwards where
  column : Int
  target : Int
  deriving Repr

namespace Backwards

def message (b : Backwards) : String :=
  "Cannot move cursor backwards from " ++ toString b.column ++ " to " ++ toString b.target

end Backwards

/-- Moves forward to a column, or to the end of the line. -/
def advanceTo (target : Int) (c : Cursor) : Except Backwards Cursor :=
  if target < c.column then .error ⟨c.column, target⟩
  else .ok { c with column := min target c.line.length }

def eat? (p : Pattern) (c : Cursor) : Option (Match × Cursor) :=
  (p c.inLine.rest).map fun m => (m, c.inLine.skip m.length)

def skipIndent (c : Cursor) : Cursor :=
  c.inLine.skip (Pattern.runLength Text.isIndent c.inLine.rest)

def lineNumber (c : Cursor) : Int := c.firstLine + max c.anchor 0

/-- Where the reported line starts in the source; outside the source, the end of its last line. -/
def lineOffset (c : Cursor) : Nat :=
  match (if 0 ≤ c.anchor then c.lines[c.anchor.toNat]? else none) with
  | some line => line.offset
  | none => (c.lines.getLast?.map (·.stop)).getD 0

def offset (c : Cursor) : Int := c.lineOffset + c.column

def positionAt (column : Int) (c : Cursor) : Position :=
  .of c.lineNumber (column + 1) (c.lineOffset + column)

def position (c : Cursor) : Position := c.positionAt c.column

def error (cause : SyntaxError.Cause) (c : Cursor) : SyntaxError :=
  ⟨cause, c.filename, c.lineNumber, c.column + 1⟩

def unexpected (expected : Expected) (c : Cursor) : Except Text.Outside SyntaxError :=
  return c.error (.unexpected (← c.peekChar) expected)

end Cursor

end TemplateTree
