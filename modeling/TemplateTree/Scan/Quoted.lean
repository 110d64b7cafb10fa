/-!
# Strings of the host language

Where a string between single or double quotes ends. A backslash protects the character after it.
-/

set_option autoImplicit false

namespace TemplateTree.Scan

def isQuote (c : Char) : Bool := c == '"' || c == '\''

/-- The number of characters up to the closing quote, the quote included. A backslash at the end
protects nothing and closes nothing. -/
def closingQuote (quote : Char) : List Char → Option Nat
  | [] | ['\\'] => none
  | '\\' :: _ :: rest => (closingQuote quote rest).map (· + 2)
  | c :: rest => if c == quote then some 1 else (closingQuote quote rest).map (· + 1)

/-- The length of the string that a text starts with, when it ends. Its first character is its
quote, whatever it is. -/
def quoted : List Char → Option Nat
  | [] => none
  | quote :: rest => (closingQuote quote rest).map (· + 1)

end TemplateTree.Scan
