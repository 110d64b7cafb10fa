import TemplateTree.Log
import TemplateTree.Options
import TemplateTree.Pattern.Lexical

/-!
# Dialects

What tells the two dialects apart: the patterns that tags, comments and doctypes start with, and the
options that they take. Everything else in the grammar is common to both.
-/

set_option autoImplicit false

namespace TemplateTree

inductive Dialect where
  | haml
  | jade
  deriving DecidableEq, Inhabited, Repr

namespace Dialect

def name : Dialect → String
  | haml => "haml"
  | jade => "jade"

def optionsClass : Dialect → OptionsClass
  | haml => .haml
  | jade => .jade

def logSource : Dialect → LogSource
  | haml => .haml
  | jade => .jade

/-- The start of a tag. The group is the name, when there is one. -/
def tag : Dialect → Pattern
  | haml => .hamlTag
  | jade => .jadeTag

/-- The start of a comment. The group is the marker. -/
def comment : Dialect → Pattern
  | haml => .hamlComment
  | jade => .jadeComment

def renderedMarker : Dialect → List Char
  | haml => ['/']
  | jade => ['/', '/']

/-- A whole doctype. The groups are the id and the options. -/
def doctype : Dialect → Pattern
  | haml => .hamlDoctype
  | jade => .jadeDoctype

end Dialect

/-- A dialect with the settings that a template is read with. -/
structure Grammar where
  dialect : Dialect
  options : Options
  deriving Repr

namespace Grammar

def standard (dialect : Dialect) : Grammar := ⟨dialect, .default dialect.optionsClass⟩

end Grammar

end TemplateTree
