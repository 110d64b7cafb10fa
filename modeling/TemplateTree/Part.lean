import TemplateTree.Pattern.Strings
import TemplateTree.Scan.Index

/-!
# Parts of interpolated strings

The text of a string is a sequence of parts: runs of text and interpolations. `read` cuts a text
into its parts and stops where neither a run nor an interpolation starts; `readLine` does so from a
column of a line on.
-/

set_option autoImplicit false

namespace TemplateTree

/-- Whether a string ends at a double quote or at the end of the line. -/
inductive Quoting where
  | quoted
  | bare
  deriving DecidableEq, Repr

namespace Quoting

/-- The length of the run that a text starts with. -/
def run : Quoting → List Char → Nat
  | quoted => Pattern.quotedRun
  | bare => Pattern.bareRun

theorem run_le (q : Quoting) (cs : List Char) : q.run cs ≤ cs.length := by
  cases q with
  | quoted => exact Pattern.quotedRun_le cs
  | bare => exact Pattern.bareRun_le cs

/-- Takes the backslashes away that protect something. -/
def unescape : Quoting → List Char → List Char
  | _, [] => []
  | q, '\\' :: '#' :: '{' :: rest => '#' :: '{' :: unescape q rest
  | quoted, '\\' :: '"' :: rest => '"' :: unescape quoted rest
  | quoted, '\\' :: '\\' :: rest => '\\' :: unescape quoted rest
  | q, c :: rest => c :: unescape q rest

end Quoting

/-- A run of text or an expression between braces, and the column where it starts. -/
inductive Part where
  | text (start : Int) (content : List Char)
  | insert (start : Int) (content : List Char)
  deriving DecidableEq, Repr

namespace Part

/-- The parts of a text whose first character has the column `start`, and the column where they
end. -/
def read (q : Quoting) (start : Int) (cs : List Char) : List Part × Int :=
  if 0 < q.run cs then
    let n := q.run cs
    let (parts, stop) := read q (start + n) (cs.drop n)
    (text start (q.unescape (cs.take n)) :: parts, stop)
  else
    match h : Scan.interpolation cs with
    | some n =>
      have := Scan.interpolation_lt h
      let (parts, stop) := read q (start + n + 1) (cs.drop (n + 1))
      (insert (start + 2) ((cs.take n).drop 2) :: parts, stop)
    | none => ([], start)
termination_by cs.length
decreasing_by
  · have := q.run_le cs
    simp only [List.length_drop]
    omega
  · simp only [List.length_drop]
    omega

/-- The parts from a column of a line on, and the column where they end. Before the line only
interpolations are read; a run of text starts with the line. -/
def readLine (q : Quoting) (line : List Char) (column : Int) :
    Except Text.Outside (List Part × Int) :=
  if 0 ≤ column ∨ 0 < q.run line then
    .ok (read q (max column 0) (line.drop column.toNat))
  else
    match h : Scan.interpolationAt line column with
    | .error e => .error e
    | .ok none => .ok ([], column)
    | .ok (some close) =>
      have := Scan.interpolationAt_le h
      match readLine q line (close + 1) with
      | .error e => .error e
      | .ok (parts, stop) =>
        .ok (insert (column + 2) (Text.slice line (column + 2) close) :: parts, stop)
termination_by (-column).toNat

theorem readLine_natCast (q : Quoting) (line : List Char) (column : Nat) :
    readLine q line column = .ok (read q column (line.drop column)) := by
  unfold readLine
  simp

end Part

end TemplateTree
