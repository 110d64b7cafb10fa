import TemplateTree.Cursor
import TemplateTree.Indent
import TemplateTree.Log
import TemplateTree.Outline

/-!
# Productions

A production reads part of a template. It moves the cursor, may note the unit of indentation, add to
the outline and write log records, and it may fail; what it changed before it failed stays changed.
-/

set_option autoImplicit false

namespace TemplateTree

inductive Failure where
  | refused (e : SyntaxError)
  /-- The cursor was told to move backwards. -/
  | backwards (b : Cursor.Backwards)
  /-- More levels were closed than were open. -/
  | nothingOpen
  | outside
  deriving Repr

/-- What productions work on. -/
structure Reading where
  cursor : Cursor
  indent : Indent
  outline : Outline
  log : List LogRecord
  deriving Repr

abbrev Production (α : Type) := ExceptT Failure (StateM Reading) α

namespace Production

def cursor : Production Cursor := return (← get).cursor

def setCursor (c : Cursor) : Production Unit := modify fun r => { r with cursor := c }

def modifyCursor (f : Cursor → Cursor) : Production Unit :=
  modify fun r => { r with cursor := f r.cursor }

def record (entry : LogRecord) : Production Unit :=
  modify fun r => { r with log := r.log ++ [entry] }

def eat? (p : Pattern) : Production (Option Match) := do
  match (← cursor).eat? p with
  | some (m, c) =>
    setCursor c
    return some m
  | none => return none

/-- Reads what a pattern matches, and tells whether it matched. -/
def eat (p : Pattern) : Production Bool := return (← eat? p).isSome

/-- A value that was looked for on the line. -/
def onLine {α : Type} (a : Except Text.Outside α) : Production α :=
  match a with
  | .ok a => return a
  | .error _ => throw .outside

def peekChar : Production (Option Char) := do
  onLine (← cursor).peekChar

def refuse {α : Type} (e : SyntaxError) : Production α := throw (.refused e)

def expected {α : Type} (what : Expected) : Production α := do
  refuse (← onLine ((← cursor).unexpected what))

def advanceTo (target : Int) : Production Unit := do
  match (← cursor).advanceTo target with
  | .ok c => setCursor c
  | .error b => throw (.backwards b)

def nextLine : Production Bool := do
  let (entered, c) := (← cursor).nextLine
  setCursor c
  return entered

def skipIndent : Production Unit := modifyCursor Cursor.skipIndent

def restOfLine : Production (List Char) := do
  let c ← cursor
  setCursor c.skipRest
  return c.rest

/-- Repeats a step until it is done. A step that leaves as much source as it found is the last. -/
def iterate {β : Type} (step : β → Production (ForInStep β)) (b : β) (r : Reading) :
    Except Failure β × Reading :=
  match (step b).run r with
  | (.error e, r') => (.error e, r')
  | (.ok (.done b'), r') => (.ok b', r')
  | (.ok (.yield b'), r') =>
    if r'.cursor.remaining < r.cursor.remaining then iterate step b' r' else (.ok b', r')
termination_by r.cursor.remaining

def repeatWhile {β : Type} (step : β → Production (ForInStep β)) (b : β) : Production β :=
  ExceptT.mk (iterate step b)

/-- Runs a production and turns a refusal into nothing. The refusal is recorded. -/
def attempt {α : Type} (p : Production α) : Production (Option α) := ExceptT.mk fun r =>
  match p.run r with
  | (.error (.refused e), r') =>
    (.ok none, { r' with log := r'.log ++ [.speculationFailed e.line e.message] })
  | (.error e, r') => (.error e, r')
  | (.ok a, r') => (.ok (some a), r')

/-- Takes the indentation of a line and gives its level. -/
def checkIndent (indent : List Char) (atStart : Bool) : Production Nat := do
  let known := (← get).indent.unit.isSome
  let (level, t) := (← get).indent.check indent atStart
  modify fun r => { r with indent := t }
  match level with
  | .error cause => refuse ((← cursor).error cause)
  | .ok level =>
    match t.unit with
    | some unit => if !known then record (.unitEstablished unit.char unit.width)
    | none => pure ()
    return level

/-- Adds a statement to the outline; it is one of the given level after one of the level
`previous`. -/
def addStatement (statement : Node) (level previous : Int) : Production Unit := do
  let (added, o) := (← get).outline.insert statement level previous
  modify fun r => { r with outline := o }
  match added with
  | .ok () => return
  | .error (.illegal cause) => refuse ((← cursor).error cause)
  | .error .nothingOpen => throw .nothingOpen

end Production

end TemplateTree
