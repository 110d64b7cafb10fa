import TemplateTree.Json.Printer
import TemplateTree.Json.Token

/-!
# Numerals of integers

The decimal of an integer reads as the integer where nothing follows that a numeral may go on with.
-/

set_option autoImplicit false

namespace TemplateTree.Json

/-- A text that no numeral goes on with: it is at its end, or starts with none of the characters
of a numeral. -/
def EndsNumeral (rest : List Char) : Prop :=
  ∀ c ∈ rest.head?, c.isDigit = false ∧ c ≠ '.' ∧ c ≠ 'e' ∧ c ≠ 'E'

namespace Numeral
variable {rest : List Char}

/-- The decimal of a number starts with zero only when it is zero. -/
theorem head_toDigits {n : Nat} (h : 0 < n) :
    ∃ c ds, Nat.toDigits 10 n = c :: ds ∧ c ≠ '0' := by
  induction n using Nat.strongRecOn with
  | ind n ih =>
    by_cases hlt : n < 10
    · refine ⟨n.digitChar, [], Nat.toDigits_of_lt_base hlt, ?_⟩
      have hall : ∀ m < 10, 0 < m → m.digitChar ≠ '0' := by decide
      exact hall n hlt h
    · obtain ⟨c, ds, hdigits, hc⟩ := ih (n / 10) (by omega) (by omega)
      refine ⟨c, ds ++ [(n % 10).digitChar], ?_, hc⟩
      rw [Nat.toDigits_of_base_le (by decide) (by omega), hdigits, List.cons_append]

theorem exists_toDigits (n : Nat) : ∃ c ds, Nat.toDigits 10 n = c :: ds ∧ c.isDigit ∧
    (∀ d ∈ ds, d.isDigit) ∧ (0 < n → c ≠ '0') := by
  have hall : ∀ d ∈ Nat.toDigits 10 n, d.isDigit := fun d hd =>
    Nat.isDigit_of_mem_toDigits (by decide) (by decide) hd
  cases hdigits : Nat.toDigits 10 n with
  | nil => exact absurd hdigits Nat.toDigits_ne_nil
  | cons c ds =>
    rw [hdigits] at hall
    refine ⟨c, ds, rfl, hall c List.mem_cons_self,
      fun d hd => hall d (List.mem_cons_of_mem c hd), fun hpos => ?_⟩
    obtain ⟨c', ds', hdigits', hc'⟩ := head_toDigits hpos
    rw [hdigits] at hdigits'
    rwa [(List.cons.inj hdigits').1]

theorem value_toDigits (n : Nat) : value (Nat.toDigits 10 n) = n := by
  have hdigits := Nat.ofDigitChars_ten_toDigits (n := n)
  rw [Nat.ofDigitChars_eq_foldl] at hdigits
  simp only [Nat.mul_comm 10] at hdigits
  exact hdigits

theorem digitsOf_append {ds : List Char} (hds : ∀ c ∈ ds, c.isDigit) (h : EndsNumeral rest) :
    digitsOf (ds ++ rest) = ds ∧ afterDigits (ds ++ rest) = rest := by
  induction ds with
  | nil =>
    cases rest with
    | nil => exact ⟨rfl, rfl⟩
    | cons c rest =>
      have hc := (h c rfl).1
      simp [digitsOf, afterDigits, hc]
  | cons d ds ih =>
    have hd := hds d List.mem_cons_self
    have htail := ih fun c hc => hds c (List.mem_cons_of_mem d hc)
    rw [digitsOf, afterDigits] at htail
    simp [digitsOf, afterDigits, hd, htail]

theorem read_of_readWhole {cs whole : List Char} (h : readWhole cs = some (whole, rest))
    (hrest : EndsNumeral rest) : read cs = some (⟨whole, [], none⟩, rest) := by
  rw [read, h]
  cases rest with
  | nil => rfl
  | cons c rest =>
    obtain ⟨-, hpoint, hsmall, hlarge⟩ := hrest c rfl
    have hfraction : readFraction (c :: rest) = ([], c :: rest) := by
      rw [readFraction]
      intro _ _ heq
      exact hpoint (List.cons.inj heq).1
    simp [hfraction, readExponent, hsmall, hlarge]

theorem read_toDigits (n : Nat) (h : EndsNumeral rest) :
    read (Nat.toDigits 10 n ++ rest) = some (⟨Nat.toDigits 10 n, [], none⟩, rest) := by
  refine read_of_readWhole ?_ h
  rcases Nat.eq_zero_or_pos n with rfl | hpos
  · rfl
  · obtain ⟨c, ds, hdigits, hc, hds, hzero⟩ := exists_toDigits n
    obtain ⟨htaken, hleft⟩ := digitsOf_append hds h
    rw [hdigits, List.cons_append, readWhole]
    · rw [htaken, hleft, hc]
      rfl
    · exact hzero hpos

end Numeral

namespace Token
variable {rest : List Char}

/-- The decimal of an integer is read as the integer. -/
theorem readNumber_writeInt {i : Int} (hi : (Nat.toDigits 10 i.natAbs).length ≤ maxDigits)
    (h : EndsNumeral rest) : readNumber (writeInt i ++ rest) = some (.int i, rest) := by
  cases i with
  | ofNat n =>
    have hnumeral : ofNumeral false ⟨Nat.toDigits 10 n, [], none⟩ = .int n := by
      have hlength : ¬ maxDigits < (Nat.toDigits 10 n).length := Nat.not_lt.mpr hi
      simp [ofNumeral, Numeral.isInteger, hlength, Numeral.value_toDigits]
    have hminus : ∀ after, Nat.toDigits 10 n ++ rest ≠ '-' :: after := by
      obtain ⟨c, ds, hdigits, hc, -, -⟩ := Numeral.exists_toDigits n
      intro after heq
      rw [hdigits] at heq
      rw [(List.cons.inj heq).1] at hc
      exact absurd hc (by decide)
    rw [writeInt, readNumber.eq_2 _ hminus, Numeral.read_toDigits n h]
    exact congrArg (fun token => some (token, rest)) hnumeral
  | negSucc n =>
    have hnumeral : ofNumeral true ⟨Nat.toDigits 10 (n + 1), [], none⟩ = .int (.negSucc n) := by
      have hlength : ¬ maxDigits < (Nat.toDigits 10 (n + 1)).length := Nat.not_lt.mpr hi
      simp [ofNumeral, Numeral.isInteger, hlength, Numeral.value_toDigits, Int.negSucc_eq]
    simp [writeInt, readNumber, Numeral.read_toDigits (n + 1) h, hnumeral]

end Token

end TemplateTree.Json
