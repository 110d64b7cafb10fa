import TemplateTree.Number.Binary64

/-!
# Shortest decimals

A number is written with the fewest digits that read back to it, and with the decimal nearest to it
among those. From a ten-thousandth up to sixteen digits the decimal is written out with its point;
others have one digit before the point and an exponent of at least two digits.
-/

set_option autoImplicit false

namespace TemplateTree

namespace Decimal

def trim (d : Decimal) : Decimal :=
  if d.digits ≠ 0 ∧ d.digits % 10 = 0 then trim ⟨d.digits / 10, d.exponent + 1⟩ else d
termination_by d.digits
decreasing_by omega

/-- Digits with the point after the first `size` of them. -/
def positional (digits : List Char) (size : Int) : List Char :=
  if size ≤ 0 then '0' :: '.' :: (List.replicate (-size).toNat '0' ++ digits)
  else
    let n := size.toNat
    let whole := digits.take n ++ List.replicate (n - digits.length) '0'
    whole ++ '.' :: (if digits.length ≤ n then ['0'] else digits.drop n)

def exponentText (e : Int) : List Char :=
  let digits := Nat.toDigits 10 e.natAbs
  (if e < 0 then '-' else '+') :: (List.replicate (2 - digits.length) '0' ++ digits)

/-- Digits with the point after the first one and an exponent. -/
def scientific (digits : List Char) (size : Int) : List Char :=
  let tail := digits.drop 1
  digits.take 1 ++ (if tail.isEmpty then [] else '.' :: tail) ++ 'e' :: exponentText (size - 1)

def text (d : Decimal) : List Char :=
  let digits := Nat.toDigits 10 d.digits
  if -4 < d.size ∧ d.size ≤ 16 then positional digits d.size else scientific digits d.size

end Decimal

namespace Binary64

/-- The decimal that a mantissa and its power of two are. -/
def exact (mantissa : Nat) (exponent : Int) : Decimal :=
  ⟨mantissa * Nat.pow 2 exponent.toNat * Nat.pow 5 (-exponent).toNat, min exponent 0⟩

/-- A decimal without its last `drop` digits that reads back to `x`, the nearest one if there is a
choice. -/
def shortened? (x : Binary64) (d : Decimal) (drop : Nat) : Option Decimal :=
  let low := d.digits / Nat.pow 10 drop
  ([roundDiv d.digits (Nat.pow 10 drop), low, low + 1].map (Decimal.mk · (d.exponent + drop))).find?
    (nearest false · == x)

/-- The shortest decimal that reads back to a mantissa and its power of two. -/
def shortest (mantissa : Nat) (exponent : Int) : Decimal :=
  let d := exact mantissa exponent
  let count := (Nat.toDigits 10 d.digits).length
  let found := (List.range count).reverse.findSome? (shortened? (finite false mantissa exponent) d)
  (found.getD d).trim

def sign (negative : Bool) : List Char := if negative then ['-'] else []

/-- The text of a number, with the given words for those that have no digits. -/
def text (nanWord infinityWord : List Char) : Binary64 → List Char
  | nan => nanWord
  | infinite negative => sign negative ++ infinityWord
  | finite negative mantissa exponent =>
    let d := if mantissa == 0 then ⟨0, 0⟩ else shortest mantissa exponent
    sign negative ++ d.text

end Binary64

end TemplateTree
