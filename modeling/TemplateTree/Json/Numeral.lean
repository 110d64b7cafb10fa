import TemplateTree.Number.Binary64

/-!
# Numerals

A numeral has whole digits, perhaps digits after a point, and perhaps an exponent. It is an integer
when it has neither of the last two. A whole part that starts with zero ends there, and a point or
an exponent mark without a digit after it does not belong to the numeral.
-/

set_option autoImplicit false

namespace TemplateTree.Json

structure Numeral where
  whole : List Char
  fraction : List Char
  exponent : Option Int
  deriving DecidableEq, Repr

namespace Numeral

def digitsOf (cs : List Char) : List Char := cs.takeWhile Char.isDigit

def afterDigits (cs : List Char) : List Char := cs.dropWhile Char.isDigit

/-- The number that decimal digits write. -/
def value (digits : List Char) : Nat :=
  digits.foldl (fun n d => n * 10 + (d.toNat - 0x30)) 0

def isInteger (n : Numeral) : Bool := n.fraction.isEmpty && n.exponent.isNone

/-- The decimal of a numeral without its sign. -/
def decimal (n : Numeral) : Decimal :=
  ⟨value (n.whole ++ n.fraction), n.exponent.getD 0 - n.fraction.length⟩

/-- The whole part of the numeral that a text starts with, and what follows it. -/
def readWhole : List Char → Option (List Char × List Char)
  | '0' :: rest => some (['0'], rest)
  | c :: rest => if c.isDigit then some (c :: digitsOf rest, afterDigits rest) else none
  | [] => none

/-- The digits after a point, and what follows them. -/
def readFraction : List Char → List Char × List Char
  | '.' :: c :: rest =>
    if c.isDigit then (c :: digitsOf rest, afterDigits rest) else ([], '.' :: c :: rest)
  | cs => ([], cs)

/-- Whether an exponent has a minus, and what follows its sign. -/
def readSign : List Char → Bool × List Char
  | '-' :: rest => (true, rest)
  | '+' :: rest => (false, rest)
  | cs => (false, cs)

/-- An exponent, and what follows it. -/
def readExponent : List Char → Option Int × List Char
  | [] => (none, [])
  | c :: rest =>
    if c == 'e' || c == 'E' then
      let (negative, digits) := readSign rest
      match digitsOf digits with
      | [] => (none, c :: rest)
      | ds =>
        let size : Int := value ds
        (some (if negative then -size else size), afterDigits digits)
    else (none, c :: rest)

/-- The numeral that a text starts with, and what follows it. -/
def read (cs : List Char) : Option (Numeral × List Char) :=
  match readWhole cs with
  | none => none
  | some (whole, rest) =>
    let (fraction, rest) := readFraction rest
    let (exponent, rest) := readExponent rest
    some (⟨whole, fraction, exponent⟩, rest)

theorem length_afterDigits_le (cs : List Char) : (afterDigits cs).length ≤ cs.length :=
  (List.dropWhile_suffix Char.isDigit (l := cs)).length_le

theorem length_readWhole_lt {cs whole rest : List Char} (h : readWhole cs = some (whole, rest)) :
    rest.length < cs.length := by
  unfold readWhole at h
  split at h
  · simp at h
    simp [h.2]
  · next c r _ =>
    split at h
    · have := length_afterDigits_le r
      simp at h
      simp only [← h.2, List.length_cons]
      omega
    · simp at h
  · simp at h

theorem length_readFraction_le (cs : List Char) : (readFraction cs).2.length ≤ cs.length := by
  unfold readFraction
  split
  · next c r =>
    split
    · have := length_afterDigits_le r
      simp only [List.length_cons]
      omega
    · simp
  · simp

theorem length_readSign_le (cs : List Char) : (readSign cs).2.length ≤ cs.length := by
  unfold readSign
  split <;> simp

theorem length_readExponent_le (cs : List Char) : (readExponent cs).2.length ≤ cs.length := by
  unfold readExponent
  split
  · simp
  · next c r =>
    have := length_readSign_le r
    have := length_afterDigits_le (readSign r).2
    split
    · simp only
      split
      · simp
      · simp only [List.length_cons]
        omega
    · simp

theorem length_read_lt {cs rest : List Char} {n : Numeral} (h : read cs = some (n, rest)) :
    rest.length < cs.length := by
  unfold read at h
  split at h
  · simp at h
  · next whole r hw =>
    have h1 := length_readWhole_lt hw
    have h2 := length_readFraction_le r
    have h3 := length_readExponent_le (readFraction r).2
    simp at h
    rw [← h.2]
    omega

end Numeral

end TemplateTree.Json
