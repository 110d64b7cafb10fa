/-!
# Indices of a text

An index counts from the start of a text, and one below zero from its end, so that minus one is the
index of the last character.
-/

set_option autoImplicit false

namespace TemplateTree.Text

/-- A character was asked for that lies before the start of the text. -/
inductive Outside where
  | outside
  deriving DecidableEq, Repr

/-- How many characters stand before an index. -/
def place (text : List Char) : Int → Nat
  | .ofNat n => n
  | .negSucc n => text.length - (n + 1)

def tail (text : List Char) (start : Int) : List Char := text.drop (place text start)

def slice (text : List Char) (start stop : Int) : List Char :=
  (text.take (place text stop)).drop (place text start)

/-- The character at an index; there is none after the end. -/
def charAt? (text : List Char) : Int → Except Outside (Option Char)
  | .ofNat n => .ok text[n]?
  | .negSucc n => if n < text.length then .ok text[text.length - (n + 1)]? else .error .outside

@[simp] theorem place_natCast (text : List Char) (n : Nat) : place text n = n := rfl

@[simp] theorem tail_natCast (text : List Char) (n : Nat) : tail text n = text.drop n := rfl

@[simp] theorem slice_natCast (text : List Char) (m n : Nat) :
    slice text m n = (text.drop m).take (n - m) := by
  simp [slice, List.drop_take]

@[simp] theorem charAt?_natCast (text : List Char) (n : Nat) : charAt? text n = .ok text[n]? := rfl

end TemplateTree.Text
