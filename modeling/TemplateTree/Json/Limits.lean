/-!
# Limits of documents

A document that nests lists and objects too deep, or that holds an integer of too many digits, is
neither read nor written.
-/

set_option autoImplicit false

namespace TemplateTree.Json

/-- How many lists and objects may be open at once. -/
def maxDepth : Nat := 990

def maxDigits : Nat := 4300

/-- The text of the error that an integer is too long. `detail` tells more about it. -/
def tooManyDigitsText (detail : String) : String :=
  "Exceeds the limit (" ++ toString maxDigits ++ " digits) for integer string conversion" ++
    detail ++ "; use sys.set_int_max_str_digits() to increase the limit"

end TemplateTree.Json
