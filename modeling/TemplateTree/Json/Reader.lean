import TemplateTree.Json.Token
import TemplateTree.Json.Value

/-!
# Reading JSON

The tokens of a document drive a machine that keeps the lists and objects that are still open. Of
repeated keys the last value wins. The first token that does not fit decides the error.
-/

set_option autoImplicit false

namespace TemplateTree.Json

inductive ReadError where
  | malformed
  | tooDeep
  | tooManyDigits (count : Nat)
  deriving DecidableEq, Repr

namespace ReadError

/-- The text of an error about a number; the others have none. -/
def message? : ReadError → Option String
  | malformed | tooDeep => none
  | tooManyDigits count => some (tooManyDigitsText (": value has " ++ toString count ++ " digits"))

end ReadError

/-- A list or object that is still open. The items of a list are held last first. -/
inductive Frame where
  | items (done : List Value)
  | fields (done : Value.Fields)
  | field (done : Value.Fields) (key : Str)

/-- What the next token may be. -/
inductive Expect where
  | value
  | valueOrClose
  | key
  | keyOrClose
  | colon (key : Str)
  | separator (v : Value)

def run : Expect → List Frame → List Token → Except ReadError Value
  | .separator v, [], [] => .ok v
  | .separator v, .items done :: frames, .comma :: rest =>
    run .value (.items (v :: done) :: frames) rest
  | .separator v, .items done :: frames, .closeList :: rest =>
    run (.separator (.list (v :: done).reverse)) frames rest
  | .separator v, .field done key :: frames, .comma :: rest =>
    run .key (.fields (Value.Fields.put done key v) :: frames) rest
  | .separator v, .field done key :: frames, .closeObject :: rest =>
    run (.separator (.object (Value.Fields.put done key v))) frames rest
  | .separator _, _, _ => .error .malformed
  | .colon key, .fields done :: frames, .colon :: rest =>
    run .value (.field done key :: frames) rest
  | .colon _, _, _ => .error .malformed
  | .key, frames, .str key :: rest => run (.colon key) frames rest
  | .keyOrClose, frames, .str key :: rest => run (.colon key) frames rest
  | .keyOrClose, .fields done :: frames, .closeObject :: rest =>
    run (.separator (.object done)) frames rest
  | .valueOrClose, .items done :: frames, .closeList :: rest =>
    run (.separator (.list done)) frames rest
  | .key, _, _ => .error .malformed
  | .keyOrClose, _, _ => .error .malformed
  | _, frames, .null :: rest => run (.separator .null) frames rest
  | _, frames, .bool b :: rest => run (.separator (.bool b)) frames rest
  | _, frames, .int i :: rest => run (.separator (.int i)) frames rest
  | _, _, .longInt count :: _ => .error (.tooManyDigits count)
  | _, frames, .real x :: rest => run (.separator (.real x)) frames rest
  | _, frames, .str s :: rest => run (.separator (.str s)) frames rest
  | _, frames, .openList :: rest =>
    if frames.length < maxDepth then run .valueOrClose (.items [] :: frames) rest
    else .error .tooDeep
  | _, frames, .openObject :: rest =>
    if frames.length < maxDepth then run .keyOrClose (.fields [] :: frames) rest
    else .error .tooDeep
  | _, _, _ => .error .malformed

def read (text : String) : Except ReadError Value := run .value [] (Token.ofChars text.toList)

end TemplateTree.Json
