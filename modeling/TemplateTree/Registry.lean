import TemplateTree.Template

/-!
# The registry of dialects

Every name of a dialect stands for a kind of parser. The built-in dialects and those of plugins are
entered when the registry is first asked for something; what was entered before that stays, except
that a plugin replaces it.
-/

set_option autoImplicit false

namespace TemplateTree

/-- A kind of parser. One without a dialect can be entered and never made. -/
structure ParserKind where
  name : String
  dialect : Option Dialect
  deriving DecidableEq, Repr

namespace ParserKind

def haml : ParserKind := ⟨"HamlParser", some .haml⟩

def jade : ParserKind := ⟨"JadeParser", some .jade⟩

/-- The parser that is common to all dialects and has none itself. -/
def general : ParserKind := ⟨"TemplateParser", none⟩

/-- The class of the options that parsers of the kind take. -/
def optionsClass (k : ParserKind) : OptionsClass :=
  match k.dialect with
  | some d => d.optionsClass
  | none => .base

end ParserKind

/-- Something that is offered as a kind of parser; anything else is shown by its literal. -/
inductive Candidate where
  | parser (kind : ParserKind)
  | other (literal : String)
  deriving DecidableEq, Repr

/-- A dialect that a package offers, or the reason why it does not load. -/
structure Plugin where
  name : String
  package : Option String
  loaded : Except String Candidate

/-- The plugins that are found, or the reason why the search fails. -/
abbrev Plugins := Except String (List Plugin)

inductive RegistryError where
  | notParser (dialect literal : String)
  | unknownDialect (name : String) (available : List String)
  | noDialect
  | wrongOptions (parser : String) (expected received : OptionsClass)
  | badOptions (e : OptionsError)
  deriving Repr

namespace RegistryError

def unknownDialectText (name : String) (available : List String) : String :=
  "Unknown template dialect: '" ++ name ++ "'" ++
    if available.isEmpty then ""
    else " (available: " ++ ", ".intercalate (available.mergeSort (· ≤ ·)) ++ ")"

def wrongOptionsText (parser : String) (expected received : OptionsClass) : String :=
  parser ++ " expected options of type '" ++ expected.name ++ "' but received '" ++ received.name ++
    "'."

def message? : RegistryError → Option String
  | notParser dialect literal =>
    some ("Parser for dialect '" ++ dialect ++ "' must be a TemplateParser subclass, got " ++
      literal)
  | unknownDialect name available => some (unknownDialectText name available)
  | wrongOptions parser expected received => some (wrongOptionsText parser expected received)
  | badOptions e => e.message?
  | noDialect => none

end RegistryError

namespace Grammar

/-- A dialect with the given settings, or with the default ones. Settings have to be of the class
that the dialect takes. -/
def make (d : Dialect) (options : Option Options) : Except RegistryError Grammar :=
  match options with
  | none => .ok (standard d)
  | some o =>
    if o.optionsClass == d.optionsClass then .ok ⟨d, o⟩
    else .error (.wrongOptions d.name d.optionsClass o.optionsClass)

end Grammar

structure Registry where
  parsers : List (String × ParserKind)
  /-- Whether the built-in dialects and the plugins have been entered. -/
  ready : Bool
  plugins : Plugins
  log : List LogRecord

structure Parser where
  kind : ParserKind
  grammar : Grammar
  deriving Repr

abbrev RegistryM (α : Type) := ExceptT RegistryError (StateM Registry) α

namespace Registry

def fresh (plugins : Plugins) : Registry := ⟨[], false, plugins, []⟩

def get? (r : Registry) (name : String) : Option ParserKind := r.parsers.lookup name

def names (r : Registry) : List String := r.parsers.map (·.1)

/-- Gives a name a kind of parser; a name that is there keeps its place. -/
def put (r : Registry) (name : String) (kind : ParserKind) : Registry :=
  { r with
    parsers :=
      if (r.get? name).isSome then r.parsers.map fun (n, k) => (n, if n == name then kind else k)
      else r.parsers ++ [(name, kind)] }

def record (entry : LogRecord) (r : Registry) : Registry := { r with log := r.log ++ [entry] }

/-- Enters a kind of parser and says whether it replaces another one. -/
def enter (name : String) (kind : ParserKind) (r : Registry) : Registry :=
  (r.put name kind).record (if (r.get? name).isSome then .replaced name else .registered name)

/-- Enters the dialect of a plugin. One that does not load or is no parser is passed over. -/
def enterPlugin (r : Registry) (plugin : Plugin) : Registry :=
  let package := plugin.package.getD "unknown"
  match plugin.loaded with
  | .error reason => r.record (.pluginFailed plugin.name package reason)
  | .ok (.parser kind) =>
    (r.enter plugin.name kind).record (.pluginRegistered plugin.name package)
  | .ok (.other literal) =>
    r.record (.pluginFailed plugin.name package
      ((RegistryError.notParser plugin.name literal).message?.getD ""))

/-- Enters a built-in dialect, unless its name is taken. -/
def enterDefault (name : String) (kind : ParserKind) (r : Registry) : Registry :=
  if (r.get? name).isSome then r else r.put name kind

/-- Enters the built-in dialects and the plugins, the first time. -/
def prepare (r : Registry) : Registry :=
  if r.ready then r
  else
    let r := ({ r with ready := true }.enterDefault "haml" .haml).enterDefault "jade" .jade
    match r.plugins with
    | .error reason => r.record (.noPlugins reason)
    | .ok plugins => plugins.foldl enterPlugin r

def register (name : String) : Candidate → RegistryM Unit
  | .parser kind => modify (enter name kind)
  | .other literal => throw (.notParser name literal)

def unregister (name : String) : RegistryM Bool := do
  let r ← get
  if (r.get? name).isSome then
    set ({ r with parsers := r.parsers.filter (·.1 != name) }.record (.unregistered name))
    return true
  else return false

def dialects : RegistryM (List String) := do
  modify prepare
  return (← get).names.mergeSort (· ≤ ·)

def find (name : String) : RegistryM ParserKind := do
  modify prepare
  match (← get).get? name with
  | some kind => return kind
  | none => throw (.unknownDialect (onOneLine name) (← get).names)

/-- A parser of a dialect, with the given options or the default ones. -/
def create (name : String) (options : Option Options) : RegistryM Parser := do
  let kind ← find name
  modify (record (.creating kind.name name))
  match kind.dialect with
  | none => throw .noDialect
  | some d =>
    match Grammar.make d options with
    | .ok g => return ⟨kind, g⟩
    | .error e => throw e

end Registry

/-- A template to read: its source, its name, the number of its first line, its dialect, and options
or single settings or both. -/
structure Request where
  source : String
  filename : String
  firstLine : Int
  dialect : String
  options : Option Options
  settings : Value.Fields

inductive RequestError where
  | setup (e : RegistryError)
  | reading (e : Failure)
  deriving Repr

namespace Request

/-- The names of what is given beside the settings. -/
def ownNames : List Str := ["source", "filename", "lineno", "dialect", "options"]

/-- The options that a request asks for. Settings change given options; without options they start
from the defaults, and names that are no settings are passed over. -/
def finalOptions (q : Request) (kind : ParserKind) : RegistryM (Option Options) := do
  match q.settings, q.options with
  | [], options => return options
  | settings, some o =>
    match o.update settings with
    | .ok o => return some o
    | .error e => throw (.badOptions e)
  | settings, none =>
    let (skipped, made) := Options.ofKnown kind.optionsClass settings
    if !skipped.isEmpty then modify (Registry.record (.skippedOptions skipped))
    match made with
    | .ok o => return some o
    | .error e => throw (.badOptions e)

def parser (q : Request) : RegistryM Parser := do
  match q.settings.find? fun (name, _) => ownNames.contains name with
  | some (name, _) => throw (.badOptions (.takenName name))
  | none => pure ()
  let kind ← Registry.find q.dialect
  Registry.create q.dialect (← q.finalOptions kind)

/-- The tree of a request. -/
def parse (q : Request) (r : Registry) : Except RequestError Node × Registry :=
  match q.parser.run r with
  | (.error e, r) => (.error (.setup e), r)
  | (.ok parser, r) =>
    let (result, reader) := readTemplate parser.grammar q.source q.filename q.firstLine
    (result.mapError .reading, { r with log := r.log ++ reader.log })

end Request

end TemplateTree
