import TemplateTree.Scan.Quoted

/-!
# Interpolations

An interpolation is an expression between a hash with an opening brace and the closing brace that
belongs to it. Braces inside have to balance, braces in strings do not count, and the expression is
not empty.
-/

set_option autoImplicit false

namespace TemplateTree.Scan

/-- The number of characters before the brace that closes `depth` groups and the interpolation.
`quote` is the quote of the string that the text starts in. -/
def closingBrace : Nat → Option Char → List Char → Option Nat
  | _, _, [] => none
  | depth, some quote, '\\' :: _ :: rest => (closingBrace depth (some quote) rest).map (· + 2)
  | depth, some quote, c :: rest =>
    (closingBrace depth (if c == quote then none else some quote) rest).map (· + 1)
  | depth, none, c :: rest =>
    if isQuote c then (closingBrace depth (some c) rest).map (· + 1)
    else if c == '{' then (closingBrace (depth + 1) none rest).map (· + 1)
    else if c == '}' then
      match depth with
      | 0 => some 0
      | depth + 1 => (closingBrace depth none rest).map (· + 1)
    else (closingBrace depth none rest).map (· + 1)

/-- The number of characters before the closing brace of the interpolation that a text starts with,
when there is a whole one. -/
def interpolation : List Char → Option Nat
  | '#' :: '{' :: body =>
    match closingBrace 0 none body with
    | none | some 0 => none
    | some n => some (n + 2)
  | _ => none

theorem closingBrace_lt {depth : Nat} {quote : Option Char} {cs : List Char} {n : Nat}
    (h : closingBrace depth quote cs = some n) : n < cs.length := by
  fun_induction closingBrace depth quote cs generalizing n <;>
    grind [Option.map_eq_some_iff]

theorem interpolation_lt {cs : List Char} {n : Nat} (h : interpolation cs = some n) :
    n < cs.length := by
  unfold interpolation at h
  split at h
  · split at h
    · simp at h
    · simp at h
    · next hb =>
      have := closingBrace_lt hb
      simp at h ⊢
      omega
  · simp at h

end TemplateTree.Scan
