import LoxLang.Binary64

/-!
# Reading a decimal as the nearest double

A decimal `coefficient * 10 ^ exponent` is rounded to the nearest number of
the double format, a tie going to the even significand. Everything happens on
exact naturals: the decimal is a quotient, its binary exponent is found by
comparing the quotient with powers of two, and one division with remainder
gives the significand. A carry out of the significand needs no case of its
own, since the bit pattern is linear in it; too large a result becomes
infinity.
-/

namespace LoxLang

/-- The nonnegative number `coefficient * 10 ^ exponent`. -/
structure Decimal where
  coefficient : Nat
  exponent : Int
deriving DecidableEq, Repr

namespace Decimal

/-- The decimal as a quotient of naturals. -/
def numerator (d : Decimal) : Nat := d.coefficient * Nat.pow 10 d.exponent.toNat

/-- The denominator that goes with `numerator`. -/
def denominator (d : Decimal) : Nat := Nat.pow 10 (-d.exponent).toNat

end Decimal

/-- The quotient of `num` by `den` rounded to the nearest natural, a tie to the even one. -/
def roundQuotient (num den : Nat) : Nat :=
  let floor := num / den
  let excess := 2 * (num % den)
  if excess < den then floor
  else if den < excess then floor + 1
  else floor + floor % 2

/-- The greatest `e` with `2 ^ e ≤ num / den`, for positive `num` and `den`. -/
def binaryExponent (num den : Nat) : Int :=
  let guess : Int := (num.log2 : Int) - (den.log2 : Int)
  if den * Nat.pow 2 guess.toNat ≤ num * Nat.pow 2 (-guess).toNat then guess else guess - 1

/-- The bit pattern of the number nearest to `num / den`. -/
def nearestBits (num den : Nat) : Nat :=
  if num = 0 then 0
  else
    let exponent := max (binaryExponent num den - 52) Magnitude.minExponent
    let significand :=
      roundQuotient (num * Nat.pow 2 (-exponent).toNat) (den * Nat.pow 2 exponent.toNat)
    min (Magnitude.bits ⟨significand, exponent⟩) Magnitude.infinityBits

/-- The double nearest to a decimal. -/
def Decimal.toFloat (d : Decimal) : Float :=
  Float.ofBits (UInt64.ofNat (nearestBits d.numerator d.denominator))

example : nearestBits 1 10 = 0x3fb999999999999a := by decide +kernel
example : nearestBits (10 ^ 23) 1 = 0x44b52d02c7e14af6 := by decide +kernel
example : nearestBits 5 (10 ^ 324) = 1 := by decide +kernel
example : nearestBits 2 (10 ^ 324) = 0 := by decide +kernel
example : nearestBits (10 ^ 309) 1 = Magnitude.infinityBits := by decide +kernel

end LoxLang
