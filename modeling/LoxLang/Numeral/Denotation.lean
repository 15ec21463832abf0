import LoxLang.Token.Scan

/-!
# The decimal that a numeral denotes

Numerals are written in several layouts. This is what all of them mean: digits,
perhaps a point with more digits behind it, and perhaps a power of ten behind an
`e`, in either case, with or without a sign. The result is exact; nothing is
rounded here.
-/

namespace LoxLang

namespace Numeral

/-- What stands in front of a mark, and what stands behind it if it occurs. -/
def cutAt (mark : Char → Bool) (cs : List Char) : List Char × Option (List Char) :=
  (cs.takeWhile (!mark ·), (cs.dropWhile (!mark ·)).tail?)

/-- Nothing but digits, and at least one. -/
def areDigits (cs : List Char) : Bool := !cs.isEmpty && cs.all Scan.isDigit

/-- The integer that digits with or without a sign denote. -/
def integer? : List Char → Option Int
  | '-' :: ds => if areDigits ds then some (-(digitsValue ds : Int)) else none
  | '+' :: ds => if areDigits ds then some (digitsValue ds) else none
  | ds => if areDigits ds then some (digitsValue ds) else none

/-- The letters in front of a power of ten. -/
def marksPower (c : Char) : Bool := c == 'e' || c == 'E'

end Numeral

namespace Decimal

open Numeral

/-- The decimal that digits with or without a point among them denote. -/
def ofPlain? (cs : List Char) : Option Decimal :=
  match cutAt (· == '.') cs with
  | (whole, none) => if areDigits whole then some ⟨digitsValue whole, 0⟩ else none
  | (whole, some fraction) =>
    if areDigits whole && areDigits fraction then
      some ⟨digitsValue (whole ++ fraction), -(fraction.length : Int)⟩
    else none

/-- The decimal that a numeral denotes. -/
def ofNumeral? (cs : List Char) : Option Decimal :=
  match cutAt marksPower cs with
  | (mantissa, none) => ofPlain? mantissa
  | (mantissa, some power) => do
    let d ← ofPlain? mantissa
    let e ← integer? power
    some ⟨d.coefficient, d.exponent + e⟩

example : ofNumeral? "1.5e-7".toList = some ⟨15, -8⟩ := by decide
example : ofNumeral? "1.".toList = none := by decide

end Decimal

end LoxLang
