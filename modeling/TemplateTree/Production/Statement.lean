import TemplateTree.Production.Attributes
import TemplateTree.Production.Block
import TemplateTree.Scan.Brackets

/-!
# Statements

Every line is one statement: a tag, a filter, a comment, code to run, a doctype, or an inline
statement that stands on its own. A tag may carry an inline statement on its line.
-/

set_option autoImplicit false

namespace TemplateTree.Production

open Text

def condition? : Production (Option (List Char)) := do
  let c ← cursor
  match Scan.brackets c.rest with
  | none => return none
  | some n =>
    if c.column + n == c.line.length then
      advanceTo (c.column + n)
      return some (c.rest.take n)
    else return none

/-- Comments of the grammar may carry a condition. -/
def allowsConditions (g : Grammar) : Bool :=
  g.dialect == .haml && g.options.conditionalComments.isTrue

/-- Reads a comment, if one starts at the cursor. A silent comment takes its block. -/
def comment? (g : Grammar) : Production (Option Node) := do
  let c := (← cursor).inLine
  match ← eat? g.dialect.comment with
  | none => return none
  | some m =>
    let rendered := m.groupText 0 == g.dialect.renderedMarker
    let condition ← if rendered && allowsConditions g then condition? else pure none
    let inner ← cursor
    let text := trim (← restOfLine)
    let content := if text.isEmpty then none else some (Node.ofText text inner.position)
    let condition := (condition.map fun cs => Value.str (String.ofList cs)).getD .null
    if rendered then return some (.comment (.bool true) condition content [] c.position)
    else
      let children ← rawLines
      record (.silentBlock g.dialect.logSource children.length)
      return some (.comment (.bool false) condition content children c.position)

/-- The escaping that a modifier asks for. -/
def escapingOf (modifier : List Char) : Escaping :=
  if modifier == ['&'] then .enabled
  else if modifier == ['!'] then .disabled
  else .inherit

/-- Reads a statement that may follow a tag on its line: an insert, a string, a comment or text. A
backslash before text is dropped. -/
def inline? (g : Grammar) : Production (Option Node) := do
  let c := (← cursor).inLine
  match ← eat? .inlineInsert with
  | some m =>
    let node ←
      if m.groupText 1 == ['=', '='] then interpolatedString .bare
      else do
        let text := String.ofList (← restOfLine)
        let preserve := Value.bool (m.groupText 1 == ['~'])
        pure (.insert (.str text) .inherit preserve c.position)
    skipIndent
    return some (node.withEscaping (escapingOf (m.groupText 0)))
  | none =>
    match ← comment? g with
    | some node => return some node
    | none =>
      if (← peekChar) == some '\\' then modifyCursor (·.skip 1)
      if isBlankLine (← cursor).rest then return none
      return some (← interpolatedString .bare)

def run? : Production (Option Node) := do
  let c := (← cursor).inLine
  match ← eat? .runMarker with
  | none => return none
  | some _ =>
    skipIndent
    let code := String.ofList (← restOfLine)
    return some (.run (.str code) [] c.position)

/-- The flag of a character after the attributes of a tag. -/
def flagOf? : Dialect → Char → Option TagFlags
  | _, '/' => some TagFlags.selfClose
  | .haml, '<' => some TagFlags.removeInner
  | .haml, '>' => some TagFlags.removeOuter
  | _, _ => none

/-- Reads one more flag of a tag, if there is one. One dialect allows any number of them, the other
only one. -/
def nextFlag (d : Dialect) (flags : TagFlags) : Production (ForInStep TagFlags) := do
  match (← peekChar).bind (flagOf? d) with
  | none => return .done flags
  | some flag =>
    modifyCursor (·.skip 1)
    return if d == .haml then .yield (flags ||| flag) else .done flag

def tagFlags (d : Dialect) : Production TagFlags := repeatWhile (nextFlag d) TagFlags.none

def tag? (g : Grammar) : Production (Option Node) := do
  let c := (← cursor).inLine
  match ← eat? g.dialect.tag with
  | none => return none
  | some m =>
    let name := match m.group 0 with
      | some name => Value.str (String.ofList name)
      | none => g.options.implicitTagName
    let attributes ← tagAttributes
    let flags ← tagFlags g.dialect
    let position := (← cursor).positionAt c.column
    skipIndent
    match ← inline? g with
    | none => return some (.tag name attributes flags none [] position)
    | some content =>
      if flags.isSelfClosing then refuse ((← cursor).error .selfClosing)
      return some (.tag name attributes flags (some content) [] position)

/-- The data value of a group of a doctype: `null` when there is nothing in it. -/
def doctypeField (m : Match) (i : Nat) : Value :=
  if (m.groupText i).isEmpty then .null else .str (String.ofList (m.groupText i))

def doctype? (d : Dialect) : Production (Option Node) := do
  let c := (← cursor).inLine
  match ← eat? d.doctype with
  | none => return none
  | some m => return some (.doctype (doctypeField m 0) (doctypeField m 1) c.position)

def literalLine? (g : Grammar) : Production (Option Node) := do
  let c := (← cursor).inLine
  if g.options.pipedText.isTrue then
    if ← eat .pipe then
      return some (.statement (← interpolatedString .bare) c.position)
  if ← eat .markup then return some (← interpolatedString .bare).wrap
  return none

/-- Reads a statement of one dialect only, which is tried before all others. -/
def extra? (g : Grammar) : Production (Option Node) := do
  match g.dialect with
  | .haml => return none
  | .jade =>
    match ← doctype? .jade with
    | some node => return some node
    | none => literalLine? g

def firstOf : List (Production (Option Node)) → Production (Option Node)
  | [] => return none
  | p :: rest => do
    match ← p with
    | some node => return some node
    | none => firstOf rest

def statement? (g : Grammar) : Production (Option Node) :=
  firstOf [extra? g, tag? g, filter? g, comment? g, run?, doctype? g.dialect,
    return (← inline? g).map Node.wrap]

end TemplateTree.Production
