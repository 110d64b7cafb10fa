import TemplateTree.Pattern.Basic

/-!
# The text of interpolated strings

A run of text goes up to the next interpolation or the end of the string. Inside double quotes a
backslash has to protect a quote, a backslash or an interpolation. Bare text lets a backslash stand
before anything but a hash that opens no interpolation.
-/

set_option autoImplicit false

namespace TemplateTree.Pattern

/-- The length of the run that quoted text starts with. -/
def quotedRun : List Char → Nat
  | [] => 0
  | '\\' :: '"' :: rest => quotedRun rest + 2
  | '\\' :: '\\' :: rest => quotedRun rest + 2
  | '\\' :: '#' :: '{' :: rest => quotedRun rest + 3
  | '#' :: '{' :: _ => 0
  | c :: rest => if c == '\\' || c == '"' then 0 else quotedRun rest + 1

/-- The length of the run that bare text starts with. -/
def bareRun : List Char → Nat
  | [] => 0
  | '\\' :: '#' :: '{' :: rest => bareRun rest + 3
  | '\\' :: '#' :: _ => 0
  | '\\' :: _ :: rest => bareRun rest + 2
  | '#' :: '{' :: _ => 0
  | _ :: rest => bareRun rest + 1

theorem quotedRun_le (cs : List Char) : quotedRun cs ≤ cs.length := by
  fun_induction quotedRun cs <;> simp <;> omega

theorem bareRun_le (cs : List Char) : bareRun cs ≤ cs.length := by
  fun_induction bareRun cs <;> simp <;> omega

def quotedText : Pattern := fun cs =>
  match quotedRun cs with
  | 0 => none
  | n + 1 => some (.plain (n + 1))

def bareText : Pattern := fun cs =>
  match bareRun cs with
  | 0 => none
  | n + 1 => some (.plain (n + 1))

end TemplateTree.Pattern
