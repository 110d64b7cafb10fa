import TemplateTree.Scan.Brackets
import TemplateTree.Scan.Expression
import TemplateTree.Scan.Interpolation
import TemplateTree.Text.Index

/-!
# Scans from an index on

A scan may start at any index of a text and tells the index where it stops. One that starts below
zero reads up to the end and then the whole text, so that the indices it passes go on from minus one
to zero.
-/

set_option autoImplicit false

namespace TemplateTree.Scan

open Text

/-- What a scan reads from an index on. -/
def window (text : List Char) (start : Int) : Except Outside (List Char) :=
  if 0 ≤ start then .ok (tail text start)
  else if 0 ≤ text.length + start then .ok (tail text start ++ text)
  else .error .outside

/-- The index so many characters after the start, when the scan found that many. -/
def stopOf (start : Int) (length : Option Nat) : Option Int := length.map fun (n : Nat) => start + n

/-- The index after the string that starts at an index, when it ends. -/
def quotedAt (text : List Char) (start : Int) : Except Outside (Option Int) := do
  match ← window text start with
  | [] => throw .outside
  | cs => return stopOf start (quoted cs)

/-- The index after the expression that starts at an index. -/
def expressionAt (delimiters text : List Char) (start : Int) : Except Outside (Option Int) := do
  return stopOf start (expression delimiters (← window text start))

/-- The index of the brace that closes the interpolation that starts at an index. Its two opening
characters do not go over the end of the text. -/
def interpolationAt (text : List Char) (start : Int) : Except Outside (Option Int) := do
  match tail text start with
  | '#' :: '{' :: _ =>
    return stopOf start (interpolation ('#' :: '{' :: (← window text (start + 2))))
  | _ => return none

/-- The index after the bracketed group that starts at an index. -/
def bracketsAt (text : List Char) (start : Int) : Except Outside (Option Int) := do
  return stopOf start (brackets (← window text start))

@[simp] theorem window_natCast (text : List Char) (start : Nat) :
    window text start = .ok (text.drop start) := by
  simp [window]

theorem expressionAt_natCast (delimiters text : List Char) (start : Nat) :
    expressionAt delimiters text start =
      .ok (stopOf start (expression delimiters (text.drop start))) := by
  simp [expressionAt, pure, Except.pure, bind, Except.bind]

theorem bracketsAt_natCast (text : List Char) (start : Nat) :
    bracketsAt text start = .ok (stopOf start (brackets (text.drop start))) := by
  simp [bracketsAt, pure, Except.pure, bind, Except.bind]

theorem interpolationAt_natCast (text : List Char) (start : Nat) :
    interpolationAt text start = .ok (stopOf start (interpolation (text.drop start))) := by
  have hw : window text ((start : Int) + 2) = .ok (text.drop (start + 2)) :=
    window_natCast text (start + 2)
  simp only [interpolationAt, tail_natCast, hw, pure, Except.pure, bind, Except.bind]
  split
  · next rest h =>
    have hd : text.drop (start + 2) = rest := by
      rw [← List.drop_drop, h]
      rfl
    rw [h, hd]
  · next h =>
    unfold interpolation
    split
    · next body hb => exact absurd hb (h body)
    · rfl

theorem interpolationAt_le {text : List Char} {start stop : Int}
    (h : interpolationAt text start = .ok (some stop)) : start ≤ stop := by
  simp only [interpolationAt, pure, Except.pure, bind, Except.bind] at h
  split at h
  · split at h
    · simp at h
    · simp only [stopOf, Except.ok.injEq, Option.map_eq_some_iff] at h
      obtain ⟨n, -, rfl⟩ := h
      omega
  · simp at h

end TemplateTree.Scan
