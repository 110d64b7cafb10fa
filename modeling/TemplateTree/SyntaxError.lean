import TemplateTree.Json.Display

/-!
# Syntax errors

Why a template is refused, and where. Every cause belongs to one of three classes: malformed text,
illegal indentation, illegal nesting. The wording of all causes is in `Cause.message`.
-/

set_option autoImplicit false

namespace TemplateTree

/-- What a production looks for and does not find. -/
inductive Expected where
  | statement
  | quotedString
  | stringPart
  | expression
  | symbol
  | hashSeparator
  | htmlName
  | htmlSeparator
  | objectSeparator
  /-- One more attribute on the next line, or the bracket that ends the list. -/
  | moreAttributes (closer : Char)
  deriving DecidableEq, Repr

namespace Expected

def text : Expected → String
  | statement => "statement"
  | quotedString => "double quoted string"
  | stringPart => "string or #\x7b...\x7d"
  | expression => "target language expression"
  | symbol => "symbol"
  | hashSeparator => "',' or '\x7d'"
  | htmlName => "html attribute name or #\x7binterpolation\x7d"
  | htmlSeparator => "' ', ')' or end of line"
  | objectSeparator => "',' or ']'"
  | moreAttributes closer => "attribute or '" ++ closer.toString ++ "'"

end Expected

namespace SyntaxError

inductive Class where
  | malformed
  | indentation
  | nesting
  deriving DecidableEq, Repr

inductive Cause where
  | unexpected (found : Option Char) (expected : Expected)
  | indentedStart
  | mixedIndent
  | otherIndent (used established : Char)
  | partialIndent (length width : Nat)
  /-- A line is more than one level deeper than the line before it. -/
  | deepIndent
  /-- A line is nested and no statement is above it. -/
  | nothingAbove
  | tooManyLevels (limit : Value)
  /-- The statement above owns no statements. -/
  | closedKind (label : String)
  | contentOfTag (name : Value)
  | contentOfComment
  | selfClosing
  /-- A cause in the words of the caller. -/
  | stated (errorClass : Class) (message : String)
  deriving Repr

/-- How messages call an indentation with the given character. -/
def describeIndent (c : Char) : String := if c == ' ' then "spaces" else "tabs"

namespace Cause

def errorClass : Cause → Class
  | unexpected .. => .malformed
  | indentedStart | mixedIndent | otherIndent .. | partialIndent .. | deepIndent => .indentation
  | nothingAbove | tooManyLevels _ | closedKind _ | contentOfTag _ | contentOfComment
  | selfClosing => .nesting
  | stated errorClass _ => errorClass

def message : Cause → String
  | unexpected none expected => "Unexpected end of line, expected " ++ expected.text
  | unexpected (some c) expected =>
    "Unexpected '" ++ c.toString ++ "', expected " ++ expected.text
  | indentedStart => "Indenting at the beginning of the document is illegal"
  | mixedIndent => "Indentation can't use both tabs and spaces"
  | otherIndent used established =>
    "Inconsistent indentation: " ++ describeIndent used ++ " were used for indentation, but the " ++
      "rest of the document was indented using " ++ describeIndent established
  | partialIndent length width =>
    "Inconsistent indentation: " ++ toString length ++ " is not a multiple of " ++ toString width
  | deepIndent => "The line was indented more than one level deeper than the previous line"
  | nothingAbove => "Illegal nesting: no statement to nest within"
  | tooManyLevels limit => "Illegal nesting: more than " ++ limit.display ++ " nested levels"
  | closedKind label => "Illegal nesting: nesting within " ++ label ++ " is illegal"
  | contentOfTag name =>
    "Illegal nesting: content can't be both given on the same line as %" ++ name.display ++
      " and nested within it"
  | contentOfComment =>
    "Illegal nesting: nesting within a tag that already has content is illegal"
  | selfClosing => "Illegal nesting: nesting within a self-closing tag is illegal"
  | stated _ message => message

end Cause

end SyntaxError

structure SyntaxError where
  cause : SyntaxError.Cause
  filename : String
  line : Int
  column : Int
  deriving Repr

namespace SyntaxError

def errorClass (e : SyntaxError) : Class := e.cause.errorClass

def message (e : SyntaxError) : String := e.cause.message

def located (message filename line column : String) : String :=
  message ++ " in " ++ filename ++ " on line " ++ line ++ ", column " ++ column

def text (e : SyntaxError) : String :=
  located e.message e.filename (toString e.line) (toString e.column)

end SyntaxError

end TemplateTree
