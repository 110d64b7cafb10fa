import TemplateTree.Production.Statement

/-!
# Templates

A template is read line by line. Every line that is not blank has its indentation checked, is read
as one statement, and is added to the outline.
-/

set_option autoImplicit false

namespace TemplateTree

/-- What a line says: nothing, or a statement of a level after one of the level `previous`. -/
inductive Entry where
  | blank
  | statement (node : Node) (level previous : Nat)
  deriving Repr

namespace Production

def entry (g : Grammar) : Production Entry := do
  let c ← cursor
  if Text.isBlankLine c.line then return .blank
  let indent := Pattern.run Text.isIndent c.rest
  skipIndent
  let level ← checkIndent indent (← get).outline.last.isNone
  match ← statement? g with
  | none => expected .statement
  | some node => return .statement node level (← get).indent.previous

def place : Entry → Production Unit
  | .blank => return
  | .statement node level previous => addStatement node level previous

/-- Enters the next line, joins it with those that belong to it, and reads what they say. -/
def nextEntry (g : Grammar) : Production (Option Entry) := do
  if !(← nextLine) then return none
  joinMultiline
  return some (← entry g)

/-- Reads the next line and adds what it says to the outline. -/
def nextStatement (g : Grammar) : Production (ForInStep Unit) := do
  match ← nextEntry g with
  | none => return .done ()
  | some said =>
    place said
    return .yield ()

def lines (g : Grammar) : Production Unit := repeatWhile (fun () => nextStatement g) ()

end Production

namespace Reading

def start (g : Grammar) (source : String) (filename : String) (firstLine : Int) (root : Node) :
    Reading :=
  ⟨.start source.toList filename firstLine, .start, .start root g.options.maxNestingDepth, []⟩

end Reading

/-- Reads a template. Gives its tree, or why it is refused, and what the reader came to. -/
def readTemplate (g : Grammar) (source filename : String) (firstLine : Int) :
    Except Failure Node × Reading :=
  let root := Node.root [] (some (.of firstLine 1 0))
  (do
    Production.record (.parsing filename g.dialect.name)
    Production.lines g
    let root := (← get).outline.root
    Production.record (.parsed filename root.children.length)
    return root : Production Node).run (Reading.start g source filename firstLine root)

end TemplateTree
