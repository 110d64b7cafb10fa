import TemplateTree.Production.Strings

/-!
# Attributes

A tag may have ids and classes in short form, then a list in braces, a list in round brackets and an
object reference in square brackets, in any order and each at most once. A list may go on over
several lines: one in braces after a comma, one in round brackets between any two entries.
-/

set_option autoImplicit false

namespace TemplateTree.Production

/-- Goes on with a list on the next line. -/
def continueList (closer : Char) : Production Unit := do
  if (← cursor).peekLine.isNone then expected (.moreAttributes closer)
  discard nextLine
  skipIndent

/-- The attribute that a shorthand stands for. -/
def shorthandName (marker : List Char) : List Char :=
  if marker == ['#'] then ['i', 'd'] else ['c', 'l', 'a', 's', 's']

def nextShorthand (found : List Node) : Production (ForInStep (List Node)) := do
  let c := (← cursor).inLine
  match ← eat? .shorthand with
  | none => return .done found
  | some m =>
    let name := Node.ofText (shorthandName (m.groupText 0)) c.position
    let value := Node.ofText (m.groupText 1) (c.positionAt (c.column + 1))
    return .yield (found ++ [.tagAttribute name (some value) c.position])

def shorthands : Production (List Node) := repeatWhile nextShorthand []

/-- Reads an entry in braces: an interpolation, a name with a value, or a splat. -/
def hashEntry : Production Node := do
  match ← interpolation? with
  | some insert => return .tagAttributeInterpolation insert insert.position
  | none =>
    let name ← attributeExpression ['=', ',']
    skipIndent
    if ← eat .hashArrow then
      let value ← attributeExpression [',']
      return .tagAttribute name (some value) name.position
    else return .tagAttributeList name name.position

def nextHashEntry (found : List Node) : Production (ForInStep (List Node)) := do
  let found := found ++ [← hashEntry]
  skipIndent
  if ← eat .hashClose then return .done found
  if !(← eat .hashSeparator) then expected .hashSeparator
  if (← cursor).isEnd then continueList '}'
  return .yield found

def hashAttributes : Production (List Node) := do
  if !(← eat .hashOpen) then return []
  repeatWhile nextHashEntry []

/-- Reads an entry in round brackets: an interpolation, or a name with or without a value. -/
def htmlEntry : Production Node := do
  match ← interpolation? with
  | some insert => return .tagAttributeInterpolation insert insert.position
  | none =>
    let c := (← cursor).inLine
    match ← eat? .htmlName with
    | none => expected .htmlName
    | some m =>
      let name := Node.ofText (c.rest.take m.length) c.position
      if ← eat .htmlEquals then
        return .tagAttribute name (some (← attributeExpression [' '])) name.position
      else return .tagAttribute name none name.position

def nextHtmlEntry (found : List Node) : Production (ForInStep (List Node)) := do
  let found := found ++ [← htmlEntry]
  if ← eat .htmlClose then return .done found
  let separated ← eat .htmlSeparator
  if !separated && !(← cursor).isEnd then expected .htmlSeparator
  if (← cursor).isEnd then continueList ')'
  return .yield found

def htmlAttributes : Production (List Node) := do
  if !(← eat .htmlOpen) then return []
  repeatWhile nextHtmlEntry []

def nextObjectPart (found : List Node) : Production (ForInStep (List Node)) := do
  if ← eat .objectClose then return .done found
  let (text, position) ← expression [',', ']']
  let found := found ++ [.ofExpression text position]
  if ← eat .objectClose then return .done found
  if !(← eat .objectSeparator) then expected .objectSeparator
  return .yield found

def objectParts : Production (List Node) := repeatWhile nextObjectPart []

/-- The class and the id that an object reference at a position stands for. -/
def objectAttributes (position : Position) : List Node → List Node
  | [] => []
  | object :: others =>
    let qualifier := others.head?
    [.tagAttribute (.ofText ['c', 'l', 'a', 's', 's'] position)
        (some (.objectRefClass object qualifier position)) position,
      .tagAttribute (.ofText ['i', 'd'] position)
        (some (.objectRefId object qualifier position)) position]

def objectReference : Production (List Node) := do
  let c := (← cursor).inLine
  if !(← eat .objectOpen) then return []
  return objectAttributes c.position (← objectParts)

/-- The list that a bracket opens. -/
def attributeList? (c : Char) : Option (Production (List Node)) :=
  if c == '{' then some hashAttributes
  else if c == '(' then some htmlAttributes
  else if c == '[' then some objectReference
  else none

/-- The attributes found so far, and the brackets that have opened a list. -/
structure Collected where
  opened : List Char
  found : List Node
  deriving Repr

/-- Reads one more list of attributes, if a bracket follows that has opened none. -/
def nextAttributeList (s : Collected) : Production (ForInStep Collected) := do
  match ← peekChar with
  | none => return .done s
  | some c =>
    match attributeList? c with
    | none => return .done s
    | some list =>
      if s.opened.contains c then return .done s
      else return .yield ⟨c :: s.opened, s.found ++ (← list)⟩

def tagAttributes : Production (List Node) := do
  return (← repeatWhile nextAttributeList ⟨[], ← shorthands⟩).found

end TemplateTree.Production
