import TemplateTree.Text.Hex
import TemplateTree.Text.Printable

/-!
# Quoted literals

How a message quotes a text: between single quotes, or between double quotes when the text holds a
single quote and no double one, with every character on one line and visible.
-/

set_option autoImplicit false

namespace TemplateTree.Text

/-- The quote that a literal of the text starts and ends with. -/
def literalQuote (cs : List Char) : Char :=
  if cs.contains '\'' && !cs.contains '"' then '"' else '\''

/-- One character inside a literal with the given quote. -/
def literalChar (quote c : Char) : List Char :=
  if c == quote || c == '\\' then ['\\', c]
  else if c == '\n' then ['\\', 'n']
  else if c == '\r' then ['\\', 'r']
  else if c == '\t' then ['\\', 't']
  else if isPrintable c then [c]
  else if c.toNat < 0x100 then '\\' :: 'x' :: hexDigits 2 c.toNat
  else if c.toNat < 0x10000 then '\\' :: 'u' :: hexDigits 4 c.toNat
  else '\\' :: 'U' :: hexDigits 8 c.toNat

end TemplateTree.Text
