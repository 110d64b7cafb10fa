import TemplateTree.Json.Printer
import TemplateTree.Json.Reader
import TemplateTree.Node.Data
import TemplateTree.Node.Load

/-!
# Trees as documents

A tree is kept as the JSON text of its data.
-/

set_option autoImplicit false

namespace TemplateTree

inductive DocumentError where
  | json (e : Json.ReadError)
  | load (e : LoadError)
  deriving Repr

namespace Node

def print (layout : Json.Layout) (n : Node) : Except Json.WriteError String :=
  Json.print layout n.toValue

def read (text : String) : Except DocumentError Node :=
  match Json.read text with
  | .error e => .error (.json e)
  | .ok v => (ofValue v).mapError .load

end Node

end TemplateTree
