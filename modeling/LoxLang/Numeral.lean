import LoxLang.Binary64.Shortest

/-!
# How numbers are written

Four texts exist for one number: the text of a runtime value, the text in a
printed tree, the text in a token listing and the number of a JSON record.
All four start from the shortest digits that read back, except that integral
numbers are expanded exactly in trees and listings. What remains per text is a
choice of layout, and each choice is one small definition here. The layout of a
record is not the program's own choice but that of the library that writes its
JSON, taken over as an assumption.
-/

namespace LoxLang

namespace Decimal

/-- The digits of the coefficient, most significant first. -/
def digits (d : Decimal) : List Char := Nat.toDigits 10 d.coefficient

/-- The decimal exponent of the first digit. -/
def leadingExponent (d : Decimal) : Int := d.exponent + (d.digits.length - 1 : Nat)

/-- Positional notation, with zeros for padding and a point only where there is a fraction. -/
def positional (d : Decimal) : List Char :=
  let ds := d.digits
  if 0 ≤ d.exponent then ds ++ List.replicate d.exponent.toNat '0'
  else
    let places := (-d.exponent).toNat
    if places < ds.length then
      ds.take (ds.length - places) ++ '.' :: ds.drop (ds.length - places)
    else '0' :: '.' :: (List.replicate (places - ds.length) '0' ++ ds)

/-- Positional notation with at least one digit after the point. -/
def positionalWithPoint (d : Decimal) : List Char :=
  if 0 ≤ d.exponent then d.positional ++ ['.', '0'] else d.positional

end Decimal

namespace Numeral

/-- A minus sign for a negative number. -/
def sign (negative : Bool) : String := if negative then "-" else ""

/-- The integer text of an exponent, a minus sign in front if it is negative. -/
def exponentText (e : Int) : String :=
  sign (e < 0) ++ String.ofList (Nat.toDigits 10 e.natAbs)

/-- One digit, a point and the other digits, at least one of them: `1.0E21`, `1.2345678E7`. -/
def scientificValue (d : Decimal) : String :=
  let fraction := d.digits.drop 1
  String.ofList (d.digits.take 1 ++ '.' :: (if fraction.isEmpty then ['0'] else fraction))
    ++ "E" ++ exponentText d.leadingExponent

/-- The text of a runtime value: positional for magnitudes from a thousandth up to ten million,
without a fraction when integral, and scientific outside that range. -/
def valueText (x : Float) : String :=
  match NumberView.of x with
  | .notANumber => "NaN"
  | .infinite negative => sign negative ++ "Infinity"
  | .finite negative m =>
    let d := m.shortest .up
    sign negative ++
      if -3 ≤ d.leadingExponent ∧ d.leadingExponent ≤ 6 then String.ofList d.positional
      else scientificValue d

/-- The shortest digits in positional notation, whatever the size; `inf` and `NaN` else. -/
def plainText (x : Float) : String :=
  match NumberView.of x with
  | .notANumber => "NaN"
  | .infinite negative => sign negative ++ "inf"
  | .finite negative m => sign negative ++ String.ofList (m.shortest .up).positional

/-- A natural written out exactly, with a fraction of one zero. -/
def integralText (negative : Bool) (n : Nat) : String :=
  sign negative ++ String.ofList (Nat.toDigits 10 n) ++ ".0"

/-- The text in a printed tree: integral numbers exactly and with `.0`, others with the shortest
digits. -/
def treeText (x : Float) : String :=
  match NumberView.of x with
  | .finite negative m =>
    match m.natural? with
    | some n => integralText negative n
    | none => plainText x
  | _ => plainText x

/-- The text in a token listing: integral numbers below `2 ^ 63` exactly, with `.0` and with no
sign on zero; others with the shortest digits. -/
def listingText (x : Float) : String :=
  match NumberView.of x with
  | .finite negative m =>
    match m.natural? with
    | some n => if n < Nat.pow 2 63 then integralText (negative && n != 0) n else plainText x
    | none => plainText x
  | _ => plainText x

/-- One digit, the other digits behind a point if there are any, and a signed exponent:
`1e+21`, `1.5e-7`. Assumed of the JSON library: that it writes a plus sign depends on its version,
and no number is told from another by it. -/
def scientificRecord (d : Decimal) : String :=
  let fraction := d.digits.drop 1
  String.ofList (d.digits.take 1 ++ (if fraction.isEmpty then [] else '.' :: fraction))
    ++ "e" ++ (if d.leadingExponent < 0 then "" else "+") ++ exponentText d.leadingExponent

/-- The number of a JSON record: positional from `1e-5` up to sixteen integral digits, always with
a fraction there, scientific outside; `null` for what JSON cannot write. Both bounds are assumed of
the JSON library, as are the shortest digits, with exact ties to the even one. -/
def jsonText (x : Float) : String :=
  match NumberView.of x with
  | .finite negative m =>
    let d := m.shortest .toEven
    sign negative ++
      if -5 ≤ d.leadingExponent ∧ d.leadingExponent ≤ 15 then String.ofList d.positionalWithPoint
      else scientificRecord d
  | _ => "null"

/-- The value of a digit character. -/
def digitValue (c : Char) : Nat := c.toNat - '0'.toNat

/-- The natural that a list of decimal digits denotes. -/
def digitsValue (ds : List Char) : Nat :=
  ds.foldl (fun n c => 10 * n + digitValue c) 0

/-- The number that a literal denotes: `whole`, and `fraction` behind the point. -/
def ofLiteral (whole fraction : List Char) : Float :=
  Decimal.toFloat ⟨digitsValue (whole ++ fraction), -(fraction.length : Int)⟩

end Numeral

end LoxLang
