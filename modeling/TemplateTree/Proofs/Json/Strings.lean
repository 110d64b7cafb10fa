import TemplateTree.Json.Printer
import TemplateTree.Json.Token

/-!
# Strings of documents read as they were written

A character of a string is written as itself or by an escape, and either reads as the character.
-/

set_option autoImplicit false

namespace TemplateTree.Json

open Token (readString unescape?)

/-- What is in front of the code points that a string goes on with. -/
def prepend (p : CodePoint) (found : Option (List CodePoint × List Char)) :
    Option (List CodePoint × List Char) :=
  found.map fun (ps, after) => (p :: ps, after)

theorem readString_unescape {c e : Char} {cs : List Char} (he : e ≠ 'u') (h : unescape? e = some c) :
    readString ('\\' :: e :: cs) = prepend (.char c) (readString cs) := by
  rw [readString, h]
  · rfl
  · intro _ _ _ _ _ heq
    exact absurd heq he

theorem readString_plain {c : Char} {cs : List Char} (hquote : c ≠ '"') (hbackslash : c ≠ '\\')
    (hcontrol : ¬ c.toNat < 0x20) : readString (c :: cs) = prepend (.char c) (readString cs) := by
  rw [readString, if_neg hcontrol]
  · rfl
  · exact hquote
  · intro _ _ _ _ _ heq
    exact absurd heq hbackslash
  · exact fun _ _ heq => absurd heq hbackslash

theorem hexQuad?_hexDigits {n : Nat} (h : n < 0x10000) : ∃ a b c d,
    Text.hexDigits 4 n = [a, b, c, d] ∧ Text.hexQuad? a b c d = some n := by
  refine ⟨_, _, _, _, rfl, ?_⟩
  have hdigit : ∀ m : Nat, Text.hexValue? (Text.hexDigit (m % 16)) = some (m % 16) :=
    fun m => Text.hexValue?_hexDigit (m % 16) (Nat.mod_lt m (by decide))
  simp only [Text.hexQuad?, hdigit, Option.bind_eq_bind, Option.bind_some, Option.some.injEq]
  omega

theorem readString_control {c : Char} {cs : List Char} (h : c.toNat < 0x20) :
    readString ('\\' :: 'u' :: (Text.hexDigits 4 c.toNat ++ cs)) =
      prepend (.char c) (readString cs) := by
  obtain ⟨x, y, z, w, hdigits, hquad⟩ := hexQuad?_hexDigits (n := c.toNat) (by omega)
  have hhigh : Token.isHighHalf c.toNat = false := by
    simp [Token.isHighHalf]
    omega
  have hunit : Token.ofUnit c.toNat = .char c := by
    have hlow : Token.isLowHalf c.toNat = false := by
      simp [Token.isLowHalf]
      omega
    rw [Token.ofUnit, hhigh, hlow]
    exact congrArg CodePoint.char (Char.ofNat_toNat c)
  rw [hdigits]
  simp only [List.cons_append, List.nil_append]
  rw [readString, hquad]
  dsimp only
  split
  · rename_i hpair
    simp [hhigh] at hpair
  · rw [hunit]
    rfl

/-- However a character is written, it is read. -/
theorem readString_escape (c : Char) (cs : List Char) :
    readString (escape c ++ cs) = prepend (.char c) (readString cs) := by
  unfold escape
  split
  · rename_i hself
    rw [Bool.or_eq_true, beq_iff_eq, beq_iff_eq] at hself
    rcases hself with rfl | rfl <;> exact readString_unescape (by decide) (by decide)
  rename_i hself
  rw [Bool.or_eq_true, beq_iff_eq, beq_iff_eq, not_or] at hself
  iterate 5
    split
    · rename_i heq
      obtain rfl := beq_iff_eq.mp heq
      exact readString_unescape (by decide) (by decide)
  split
  · rename_i hcontrol
    exact readString_control hcontrol
  · rename_i hcontrol
    exact readString_plain hself.1 hself.2 hcontrol

theorem readString_points (cs : List Char) (rest : List Char) :
    readString ((cs.map CodePoint.char).flatMap escapePoint ++ '"' :: rest) =
      some (cs.map .char, rest) := by
  induction cs with
  | nil => simp [readString]
  | cons c cs ih =>
    rw [List.map_cons, List.flatMap_cons, escapePoint, List.append_assoc, readString_escape, ih]
    rfl

theorem ofPoints_toList (s : String) : Str.ofPoints (s.toList.map .char) = .chars s := by
  have hchars : (s.toList.map CodePoint.char).mapM CodePoint.char? = some s.toList := by
    generalize s.toList = cs
    induction cs with
    | nil => rfl
    | cons c cs ih => simp [CodePoint.char?, ih]
  rw [Str.ofPoints, hchars]
  simp

end TemplateTree.Json
