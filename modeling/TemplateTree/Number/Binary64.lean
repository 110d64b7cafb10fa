/-!
# Numbers of double precision

A number has a sign, a mantissa of at most 53 bits and a power of two; two more are infinite and one
is no number. A decimal stands for the number nearest to it, and for the one with the even mantissa
when it lies in the middle of two.
-/

set_option autoImplicit false

namespace TemplateTree

/-- Digits times a power of ten. -/
structure Decimal where
  digits : Nat
  exponent : Int
  deriving DecidableEq, Repr

namespace Decimal

/-- How many digits stand before the point; below one, the zeros that follow it are missing. -/
def size (d : Decimal) : Int := (Nat.toDigits 10 d.digits).length + d.exponent

def numerator (d : Decimal) : Nat := d.digits * Nat.pow 10 d.exponent.toNat

def denominator (d : Decimal) : Nat := Nat.pow 10 (-d.exponent).toNat

end Decimal

/-- The integer nearest to a quotient, and the even one of two. -/
def roundDiv (num den : Nat) : Nat :=
  let low := num / den
  let twice := 2 * (num % den)
  if twice < den then low
  else if den < twice then low + 1
  else low + low % 2

theorem roundDiv_le (num den : Nat) : roundDiv num den ≤ num / den + 1 := by
  unfold roundDiv
  simp only
  split
  · omega
  · split
    · omega
    · have := Nat.mod_lt (num / den) (by decide : 0 < 2)
      omega

/-- A mantissa of 53 bits, or a smaller one with the least exponent. -/
inductive Binary64 where
  | nan
  | infinite (negative : Bool)
  | finite (negative : Bool) (mantissa : Nat) (exponent : Int)
  deriving DecidableEq, Repr

namespace Binary64

def minExponent : Int := -1074

def maxExponent : Int := 971

def zero (negative : Bool) : Binary64 := finite negative 0 minExponent

def isZero : Binary64 → Bool
  | finite _ mantissa _ => mantissa == 0
  | _ => false

/-- The exponent that leaves a quotient 53 bits before the point, but not less than the least. -/
def exponentOf (num den : Nat) : Int :=
  let e : Int := num.log2 - den.log2 - 53
  let high := den * Nat.pow 2 (e + 53).toNat ≤ num * Nat.pow 2 (-(e + 53)).toNat
  max (if high then e + 1 else e) minExponent

/-- A rounded mantissa with its exponent. -/
def pack (negative : Bool) (mantissa : Nat) (exponent : Int) : Binary64 :=
  let carried := mantissa == Nat.pow 2 53
  let exponent := if carried then exponent + 1 else exponent
  if maxExponent < exponent then infinite negative
  else finite negative (if carried then Nat.pow 2 52 else mantissa) exponent

/-- The number nearest to a quotient. -/
def ofQuotient (negative : Bool) (num den : Nat) : Binary64 :=
  let e := exponentOf num den
  pack negative (roundDiv (num * Nat.pow 2 (-e).toNat) (den * Nat.pow 2 e.toNat)) e

/-- The number nearest to a decimal. Decimals of other sizes than the numbers have need no
division. -/
def nearest (negative : Bool) (d : Decimal) : Binary64 :=
  if d.digits == 0 || d.size < -323 then zero negative
  else if 309 < d.size then infinite negative
  else ofQuotient negative d.numerator d.denominator

/-- The integer that a number is, if it is one. -/
def toInt? : Binary64 → Option Int
  | finite negative mantissa exponent =>
    let unit := Nat.pow 2 (-exponent).toNat
    let size : Int := mantissa * Nat.pow 2 exponent.toNat / unit
    if mantissa % unit == 0 then some (if negative then -size else size) else none
  | _ => none

/-- Both zeros are equal, and what is no number equals itself. -/
def equal (x y : Binary64) : Bool := x == y || (x.isZero && y.isZero)

end Binary64

end TemplateTree
