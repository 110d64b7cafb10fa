import TemplateTree.Part
import TemplateTree.Pattern.Lexical
import TemplateTree.Production.Basic
import TemplateTree.Scan.Index

/-!
# Strings and expressions

Expressions of the host language are taken over as they stand. A string in double quotes and bare
text are cut into text and inserts.
-/

set_option autoImplicit false

namespace TemplateTree

namespace Node

def ofText (cs : List Char) (p : Position) : Node := text (.str (String.ofList cs)) p

def ofExpression (cs : List Char) (p : Position) : Node :=
  insert (.str (String.ofList cs)) .inherit (.bool false) p

/-- A part of a string on the line of a cursor. -/
def ofPart (c : Cursor) : Part → Node
  | .text start content => ofText content (c.positionAt start)
  | .insert start content => ofExpression content (c.positionAt start)

end Node

namespace Production

def stringEnd : Quoting → Production Unit
  | .quoted => do
    if !(← eat .quote) then expected .stringPart
  | .bare => do
    if !(← cursor).isEnd then expected .stringPart

/-- Reads a string from its first character on. A string without parts has one empty text. -/
def stringBody (q : Quoting) : Production Node := do
  let c ← cursor
  let (parts, stop) ← onLine (Part.readLine q c.line c.column)
  advanceTo stop
  stringEnd q
  let stopped ← cursor
  let children :=
    if parts.isEmpty then [Node.ofText [] stopped.position] else parts.map (Node.ofPart c)
  return .interpolatedString children .inherit c.position

def interpolatedString (q : Quoting) : Production Node := do
  if q == .quoted then
    if !(← eat .quote) then expected .quotedString
  stringBody q

def interpolation? : Production (Option Node) := do
  let c ← cursor
  let start := c.column + 2
  match ← onLine (Scan.interpolationAt c.line c.column) with
  | none => return none
  | some close =>
    advanceTo (close + 1)
    return some (.ofExpression (Text.slice c.line start close) (c.positionAt start))

/-- Reads an expression and gives its text and where it starts. -/
def expression (delimiters : List Char) : Production (List Char × Position) := do
  let c ← cursor
  match ← onLine (Scan.expressionAt delimiters c.line c.column) with
  | none => expected .expression
  | some stop =>
    advanceTo stop
    return (Text.slice c.line c.column stop, c.position)

def symbol : Production Node := do
  let c := (← cursor).inLine
  match ← eat? .symbol with
  | none => expected .symbol
  | some m => return .ofText (m.groupText 0) c.position

/-- A production, run to see whether it succeeds. Gives the node and the column that it reached. -/
def speculate (p : Production Node) : Production (Option (Node × Int)) := do
  match ← attempt p with
  | none => return none
  | some n => return some (n, (← cursor).column)

/-- What an expression might be besides an expression. -/
def literal? : List Char → Option (Production Node)
  | '"' :: _ => some (interpolatedString .quoted)
  | ':' :: _ => some symbol
  | _ => none

/-- Reads the name or the value of an attribute: a string in double quotes or a symbol when that
covers the whole expression, and else the expression. -/
def attributeExpression (delimiters : List Char) : Production Node := do
  let start ← cursor
  let (text, position) ← expression delimiters
  match literal? text with
  | none => return .ofExpression text position
  | some literal =>
    let stop ← cursor
    setCursor start
    let result ← speculate literal
    setCursor stop
    match result with
    | some (node, reached) =>
      if stop.column ≤ reached then
        advanceTo reached
        return node
      else return .ofExpression text position
    | none => return .ofExpression text position

end Production

end TemplateTree
