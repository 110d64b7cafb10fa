import TemplateTree.Text.Literal

/-!
# Strings of documents

A string of a document is a sequence of code points. They are characters, except that an escape may
write half of a surrogate pair, which is none.
-/

set_option autoImplicit false

namespace TemplateTree

/-- A character, or half of a surrogate pair that stands alone. -/
inductive CodePoint where
  | char (c : Char)
  | half (n : Nat)
  deriving DecidableEq, Repr

namespace CodePoint

def char? : CodePoint → Option Char
  | char c => some c
  | half _ => none

def halfEscape (n : Nat) : List Char := '\\' :: 'u' :: Text.hexDigits 4 n

def literal (quote : Char) : CodePoint → List Char
  | char c => Text.literalChar quote c
  | half n => halfEscape n

end CodePoint

/-- The characters of a string, or its code points when one of them is no character. -/
inductive Str where
  | chars (s : String)
  | broken (points : List CodePoint)
  deriving DecidableEq, Repr

instance : Coe String Str := ⟨Str.chars⟩

instance : Inhabited Str := ⟨.chars ""⟩

namespace Str

def points : Str → List CodePoint
  | chars s => s.toList.map .char
  | broken points => points

/-- The string with the given code points. -/
def ofPoints (points : List CodePoint) : Str :=
  match points.mapM CodePoint.char? with
  | some cs => chars (String.ofList cs)
  | none => broken points

theorem points_ofPoints (ps : List CodePoint) : (ofPoints ps).points = ps := by
  have key : ∀ cs, ps.mapM CodePoint.char? = some cs → cs.map CodePoint.char = ps := by
    induction ps with
    | nil => intro cs h; simp at h; simp [← h]
    | cons p ps ih =>
      intro cs h
      cases p with
      | half n => simp [CodePoint.char?] at h
      | char c =>
        simp only [List.mapM_cons, CodePoint.char?, Option.bind_eq_bind, Option.bind_some,
          Option.pure_def, Option.bind_eq_some_iff, Option.some.injEq] at h
        obtain ⟨ds, hd, rfl⟩ := h
        simp [ih ds hd]
  unfold ofPoints
  split
  · next cs h => simpa [points] using key cs h
  · rfl

def append (s t : Str) : Str := ofPoints (s.points ++ t.points)

def literal (s : Str) : String :=
  let quote := Text.literalQuote (s.points.filterMap CodePoint.char?)
  String.ofList (quote :: s.points.flatMap (CodePoint.literal quote) ++ [quote])

/-- The string where only characters can stand: half of a pair is shown by its escape. -/
def shown : Str → String
  | chars s => s
  | broken points =>
    String.ofList (points.flatMap fun
      | .char c => [c]
      | .half n => CodePoint.halfEscape n)

end Str

end TemplateTree
