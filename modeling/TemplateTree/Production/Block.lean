import TemplateTree.Dialect
import TemplateTree.Production.Strings
import TemplateTree.Text.Multiline

/-!
# Blocks

The lines that are indented below a statement. A block ends before the first line that is neither
blank nor indented by one level more than the statement; filters and silent comments take the whole
block below them.
-/

set_option autoImplicit false

namespace TemplateTree.Production

open Text

/-- A line belongs to the block below the last statement. -/
def inBlock (t : Indent) (line : List Char) : Bool :=
  isBlankLine line || (!(t.below 1 line).isEmpty && (t.below 1 line).isPrefixOf line)

/-- The lines ahead that belong to the block. -/
def blockLines (r : Reading) : List (List Char) :=
  (r.cursor.ahead.map (·.text)).takeWhile (inBlock r.indent)

/-- Enters a line of the block and reads its indentation. Tells whether the line is blank. -/
def enterBlockLine (line : List Char) : Production Bool := do
  discard nextLine
  if isBlankLine line then return true
  let t := (← get).indent
  modifyCursor (·.skip (t.below 1 line).length)
  return false

/-- Reads a block. `body` reads one line of it and is told whether the line is blank. -/
def block {α : Type} (body : Bool → Production α) : Production (List α) := do
  (blockLines (← get)).mapM fun line => do
    body (← enterBlockLine line)

def restAsText : Production Node := do
  let c ← cursor
  return .ofText (← restOfLine) c.position

/-- Reads a block as it stands, without its blank lines. -/
def rawLines : Production (List Node) := do
  let lines ← block fun blank => do
    let text ← restAsText
    return if blank then none else some text.wrap
  return lines.filterMap id

def filterLine (g : Grammar) (blank : Bool) : Production Node := do
  if blank then
    let p := (← cursor).position
    discard restOfLine
    return (Node.ofText [] p).wrap
  else if g.options.interpolateFilters.isTrue then return (← interpolatedString .bare).wrap
  else return (← restAsText).wrap

/-- Reads a filter and its block, if one starts at the cursor. -/
def filter? (g : Grammar) : Production (Option Node) := do
  let c := (← cursor).inLine
  match ← eat? .filterMarker with
  | none => return none
  | some m =>
    let name := String.ofList (trim (m.groupText 0))
    let children ← block (filterLine g)
    record (.filterBlock name children.length)
    return some (.filter (.str name) children c.position)

/-- Joins the line with the lines ahead that belong to it. -/
def joinMultiline : Production Unit := do
  let c ← cursor
  if isMultiline c.line then
    let (tail, count) := joinTail (c.ahead.map (·.text))
    let c' := { c with entered := c.entered + count }
    setCursor (c'.replaceLine (joinLines c.line tail) c.lineIndex)

end TemplateTree.Production
