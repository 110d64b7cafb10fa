import TemplateTree.Json.Display
import TemplateTree.SyntaxError

/-!
# Log records

What the library reports while it works. A record is a fact; its level, the part of the library
that it comes from and its message are functions of the fact.
-/

set_option autoImplicit false

namespace TemplateTree

/-- The parts of the library that write records. -/
inductive LogSource where
  | api
  | registry
  | engine
  | haml
  | jade
  | indentation
  deriving DecidableEq, Repr

inductive LogLevel where
  | debug
  | info
  | warning
  deriving DecidableEq, Repr

inductive LogRecord where
  | parsing (filename dialect : String)
  | parsed (filename : String) (statements : Nat)
  | unitEstablished (char : Char) (width : Nat)
  | filterBlock (name : String) (lines : Nat)
  /-- A silent comment of the dialect that `source` stands for took a block. -/
  | silentBlock (source : LogSource) (lines : Nat)
  | speculationFailed (line : Int) (message : String)
  | skippedOptions (names : List Str)
  | registered (dialect : String)
  | replaced (dialect : String)
  | unregistered (dialect : String)
  | creating (parser dialect : String)
  | noPlugins (reason : String)
  | pluginFailed (name package reason : String)
  | pluginRegistered (name package : String)
  deriving DecidableEq, Repr

/-- Writes line ends of a name so that it stays on one line. -/
def onOneLine (s : String) : String :=
  String.ofList (s.toList.flatMap fun c =>
    if c == '\n' then ['\\', 'n'] else if c == '\r' then ['\\', 'r'] else [c])

namespace LogRecord

def level : LogRecord → LogLevel
  | pluginFailed .. => .warning
  | pluginRegistered .. => .info
  | _ => .debug

def source : LogRecord → LogSource
  | parsing .. | parsed .. | filterBlock .. | speculationFailed .. => .engine
  | unitEstablished .. => .indentation
  | silentBlock source _ => source
  | skippedOptions _ => .api
  | registered _ | replaced _ | unregistered _ | creating .. | noPlugins _ | pluginFailed ..
  | pluginRegistered .. => .registry

def message : LogRecord → String
  | parsing filename dialect => "Parsing " ++ onOneLine filename ++ " as " ++ dialect
  | parsed filename statements =>
    "Parsed " ++ onOneLine filename ++ ": " ++ toString statements ++ " top-level statements"
  | unitEstablished char width =>
    "Indent unit established: " ++ toString width ++ " " ++ SyntaxError.describeIndent char
  | filterBlock name lines => "Filter :" ++ name ++ " spans " ++ toString lines ++ " lines"
  | silentBlock _ lines => "Silent comment swallowed " ++ toString lines ++ " lines"
  | speculationFailed line message =>
    "Speculative parse failed on line " ++ toString line ++ ": " ++ message
  | skippedOptions names => "Skipping unknown parser options: " ++ Value.literalNames names
  | registered dialect => "Registered dialect: " ++ dialect
  | replaced dialect => "Replacing parser for dialect '" ++ dialect ++ "'"
  | unregistered dialect => "Unregistered dialect: " ++ dialect
  | creating parser dialect => "Creating " ++ parser ++ " for dialect '" ++ dialect ++ "'"
  | noPlugins reason => "No plugins found or error discovering plugins: " ++ reason
  | pluginFailed name package reason =>
    "Failed to load dialect plugin '" ++ name ++ "' from '" ++ package ++ "': " ++ reason
  | pluginRegistered name package =>
    "Registered plugin dialect: " ++ name ++ " from package '" ++ package ++ "'"

end LogRecord

end TemplateTree
