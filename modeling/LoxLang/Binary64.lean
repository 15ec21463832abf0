/-!
# Double precision numbers as exact magnitudes

A finite number of the double format is a sign and a magnitude
`significand * 2 ^ exponent`. The magnitude is what printing and reading argue
about, so the bit pattern is taken apart here, once, and every other module
works with natural numbers.

For nonnegative finite numbers the bit pattern itself is linear in the pair:
`bits = (exponent + 1074) * 2 ^ 52 + significand`, for subnormal and normal
numbers alike, because the hidden bit of a normal significand is exactly one
step of the exponent field. `Magnitude.bits` is that formula and
`Magnitude.ofBits` its inverse.
-/

namespace LoxLang

/-- The nonnegative number `significand * 2 ^ exponent`. -/
structure Magnitude where
  significand : Nat
  exponent : Int
deriving DecidableEq, Repr

namespace Magnitude

/-- The exponent of the subnormal numbers, the finest step of the format. -/
def minExponent : Int := -1074

/-- The bit pattern of positive infinity; patterns below it are the nonnegative finite numbers. -/
def infinityBits : Nat := 2047 * Nat.pow 2 52

/-- The magnitude of a nonnegative finite number with the given bit pattern. -/
def ofBits (bits : Nat) : Magnitude :=
  let field : Nat := bits / Nat.pow 2 52
  let fraction : Nat := bits % Nat.pow 2 52
  if field = 0 then ⟨fraction, minExponent⟩
  else ⟨Nat.pow 2 52 + fraction, minExponent + ((field : Int) - 1)⟩

/-- The bit pattern of a magnitude in the format's own form. -/
def bits (m : Magnitude) : Nat :=
  (m.exponent - minExponent).toNat * Nat.pow 2 52 + m.significand

/-- Taking a bit pattern apart loses nothing. -/
theorem bits_ofBits (b : Nat) : (ofBits b).bits = b := by
  have whole := Nat.div_add_mod b (Nat.pow 2 52)
  unfold ofBits bits
  generalize Nat.pow 2 52 = unit at *
  by_cases zero : b / unit = 0
  · simp only [zero, if_true, Int.sub_self, Int.toNat_zero, Nat.zero_mul, Nat.zero_add]
    rw [zero] at whole
    omega
  · obtain ⟨n, hn⟩ := Nat.exists_eq_succ_of_ne_zero zero
    have field : (minExponent + ((b / unit : Nat) - 1 : Int) - minExponent).toNat = n := by omega
    simp only [zero, if_false, field]
    rw [hn, Nat.mul_succ] at whole
    rw [Nat.mul_comm n unit]
    omega

/-- The magnitude as a natural number, if it is one. -/
def natural? (m : Magnitude) : Option Nat :=
  if 0 ≤ m.exponent then some (m.significand * Nat.pow 2 m.exponent.toNat)
  else
    let unit := Nat.pow 2 (-m.exponent).toNat
    if m.significand % unit = 0 then some (m.significand / unit) else none

end Magnitude

/-- What a double precision number is, apart from its bit pattern. -/
inductive NumberView where
  | notANumber
  | infinite (negative : Bool)
  | finite (negative : Bool) (magnitude : Magnitude)
deriving DecidableEq, Repr

/-- The number with a given bit pattern: one sign bit, eleven of exponent, fifty-two of fraction. -/
def NumberView.ofBits (bits : Nat) : NumberView :=
  let negative := decide (Nat.pow 2 63 ≤ bits)
  let rest := bits % Nat.pow 2 63
  if rest < Magnitude.infinityBits then .finite negative (Magnitude.ofBits rest)
  else if rest = Magnitude.infinityBits then .infinite negative
  else .notANumber

/-- The view of a machine number. -/
def NumberView.of (x : Float) : NumberView :=
  .ofBits x.toBits.toNat

/-- Small cases: one, its negative, the least positive number, and the two that are not finite. -/
example : NumberView.ofBits 0x3ff0000000000000 = .finite false ⟨2 ^ 52, -52⟩ := by decide
example : NumberView.ofBits 0xbff0000000000000 = .finite true ⟨2 ^ 52, -52⟩ := by decide
example : NumberView.ofBits 1 = .finite false ⟨1, -1074⟩ := by decide
example : NumberView.ofBits 0xfff0000000000000 = .infinite true := by decide
example : NumberView.ofBits 0x7ff8000000000000 = .notANumber := by decide

end LoxLang
