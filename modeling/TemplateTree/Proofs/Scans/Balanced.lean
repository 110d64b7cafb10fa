import TemplateTree.Scan.Quoted

/-!
# Balanced text

What may stand between two brackets that belong together: whole strings, whole groups, and other
characters. Which characters open a group, and which are plain, depends on the scan.
-/

set_option autoImplicit false

namespace TemplateTree.Scan

theorem ne_backslash_of_isQuote {c : Char} (h : isQuote c) : c ≠ '\\' := by
  rintro rfl
  exact absurd h (by decide)

/-- The inside of a string. No quote of its kind ends it, and a backslash protects the character
after it. -/
inductive Protected (quote : Char) : List Char → Prop where
  | nil : Protected quote []
  | escaped (c : Char) {cs : List Char} (rest : Protected quote cs) :
      Protected quote ('\\' :: c :: cs)
  | plain {c : Char} {cs : List Char} (quote_ne : c ≠ quote) (backslash_ne : c ≠ '\\')
      (rest : Protected quote cs) : Protected quote (c :: cs)

/-- A whole string, which ends at its first quote that is not protected. -/
inductive IsString : List Char → Prop where
  | intro {quote : Char} {cs : List Char} (opens : isQuote quote) (inside : Protected quote cs) :
      IsString (quote :: (cs ++ [quote]))

/-- A sequence of strings, groups and plain characters. `closer?` gives the bracket that ends a
group for the one that starts it. -/
inductive Balanced (closer? : Char → Option Char) (plain : Char → Prop) : List Char → Prop where
  | nil : Balanced closer? plain []
  | string {s cs : List Char} (whole : IsString s) (rest : Balanced closer? plain cs) :
      Balanced closer? plain (s ++ cs)
  | group {c closer : Char} {inside cs : List Char} (opens : closer? c = some closer)
      (within : Balanced closer? plain inside) (rest : Balanced closer? plain cs) :
      Balanced closer? plain (c :: (inside ++ closer :: cs))
  | char {c : Char} {cs : List Char} (isPlain : plain c) (rest : Balanced closer? plain cs) :
      Balanced closer? plain (c :: cs)

namespace Protected
variable {quote : Char} {cs ds : List Char}

theorem append (h : Protected quote cs) (hd : Protected quote ds) : Protected quote (cs ++ ds) := by
  induction h with
  | nil => exact hd
  | escaped c _ ih => exact .escaped c ih
  | plain hquote hbackslash _ ih => exact .plain hquote hbackslash ih

end Protected

namespace Balanced
variable {closer? : Char → Option Char} {plain : Char → Prop} {s cs ds : List Char}

theorem append (h : Balanced closer? plain cs) (hd : Balanced closer? plain ds) :
    Balanced closer? plain (cs ++ ds) := by
  induction h with
  | nil => exact hd
  | string whole _ ih =>
    rw [List.append_assoc]
    exact .string whole ih
  | group opens within _ _ ih =>
    rw [List.cons_append, List.append_assoc, List.cons_append]
    exact .group opens within ih
  | char isPlain _ ih => exact .char isPlain ih

theorem of_string (h : IsString s) : Balanced closer? plain s := by
  rw [← List.append_nil s]
  exact .string h .nil

theorem of_group {c closer : Char} (opens : closer? c = some closer)
    (h : Balanced closer? plain cs) : Balanced closer? plain (c :: (cs ++ [closer])) :=
  .group opens h .nil

theorem of_char {c : Char} (h : plain c) : Balanced closer? plain [c] := .char h .nil

end Balanced

end TemplateTree.Scan
