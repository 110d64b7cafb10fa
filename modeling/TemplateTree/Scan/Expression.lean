import TemplateTree.Scan.Quoted

/-!
# Expressions of the host language

How far an expression reaches: plain characters, whole strings and whole groups between brackets.
Outside every group it stops at a delimiter, at a backslash and at a bracket that closes nothing.
Spaces at its end do not belong to it, nor does a string or group that is not closed.
-/

set_option autoImplicit false

namespace TemplateTree.Scan

def closer? (c : Char) : Option Char :=
  if c == '(' then some ')'
  else if c == '{' then some '}'
  else if c == '[' then some ']'
  else none

def isCloser (c : Char) : Bool := c == ')' || c == '}' || c == ']'

/-- Where a scan stands: the brackets that have to close, innermost first, the quote of the string
it is in, the characters read, and the end of the expression so far. -/
structure Reach where
  closers : List Char
  quote : Option Char
  read : Nat
  stop : Nat
  deriving DecidableEq, Repr

namespace Reach

def start : Reach := ⟨[], none, 0, 0⟩

/-- One character more, and the expression reaches up to it when no group is open. -/
def take (r : Reach) : Reach :=
  { r with read := r.read + 1, stop := if r.closers.isEmpty then r.read + 1 else r.stop }

/-- One character more that is no end of an expression. -/
def pass (r : Reach) : Reach := { r with read := r.read + 1 }

end Reach

/-- Reads on from where a scan stands and gives the end of the expression. -/
def expressionEnd (delimiters : List Char) : Reach → List Char → Nat
  | r, [] => r.stop
  | r, c :: rest =>
    match r.quote with
    | some quote =>
      if c == '\\' then
        match rest with
        | [] => r.stop
        | _ :: rest => expressionEnd delimiters r.pass.pass rest
      else if c == quote then expressionEnd delimiters { r with quote := none }.take rest
      else expressionEnd delimiters r.pass rest
    | none =>
      if isQuote c then expressionEnd delimiters { r with quote := some c }.pass rest
      else
        match closer? c with
        | some closer =>
          expressionEnd delimiters { r with closers := closer :: r.closers }.pass rest
        | none =>
          if isCloser c then
            match r.closers with
            | [] => r.stop
            | closer :: outer =>
              if c == closer then expressionEnd delimiters { r with closers := outer }.take rest
              else r.stop
          else if c == '\\' then r.stop
          else if r.closers.isEmpty && delimiters.contains c then r.stop
          else if c == ' ' then expressionEnd delimiters r.pass rest
          else expressionEnd delimiters r.take rest

def expression (delimiters text : List Char) : Option Nat :=
  match expressionEnd delimiters .start text with
  | 0 => none
  | n => some n

end TemplateTree.Scan
