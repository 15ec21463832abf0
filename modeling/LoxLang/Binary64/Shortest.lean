import LoxLang.Binary64.Rounding

/-!
# The shortest decimal that reads back

The reals that round to a given double form an interval around it: half a step
up, half a step down, or a quarter of a step down where the number is the least
of its binade. The ends belong to it when the significand is even. A decimal
reads back as the number exactly when it lies in that interval.

On a grid of decimals with a fixed power of ten, if any point lies in the
interval then one of the value's two neighbours does. The search therefore
walks from a coarse grid to ever finer ones and stops at the first whose
neighbours hit; of two hits the nearer is taken, and the caller says which way
an exact tie goes. The walk ends, because on the grid of the value's own binary
step the value itself is a point.
-/

namespace LoxLang

/-- Which of two equally near decimals is chosen. -/
inductive Tie where
  | up
  | toEven
deriving DecidableEq, Repr

namespace Magnitude

/-- The lower end of the interval that rounds to `m`, in quarters of its binary step. -/
def lowerEnd (m : Magnitude) : Nat :=
  if m.significand = Nat.pow 2 52 ∧ minExponent < m.exponent then 4 * m.significand - 1
  else 4 * m.significand - 2

/-- The upper end of that interval, in quarters of its binary step. -/
def upperEnd (m : Magnitude) : Nat := 4 * m.significand + 2

/-- A quarter of the binary step, scaled so that it compares with `gridStep`. -/
def quarterStep (m : Magnitude) (place : Int) : Nat :=
  Nat.pow 2 (m.exponent - 2).toNat * Nat.pow 10 (-place).toNat

/-- The decimal step `10 ^ place`, scaled by the same factor as `quarterStep`. -/
def gridStep (m : Magnitude) (place : Int) : Nat :=
  Nat.pow 10 place.toNat * Nat.pow 2 (2 - m.exponent).toNat

/-- Does `coefficient * 10 ^ place` round to `m`? -/
def covers (m : Magnitude) (place : Int) (coefficient : Nat) : Bool :=
  let point := coefficient * m.gridStep place
  let low := m.lowerEnd * m.quarterStep place
  let high := m.upperEnd * m.quarterStep place
  if m.significand % 2 = 0 then low ≤ point && point ≤ high else low < point && point < high

/-- The value in units of the scaled grid. -/
def scaled (m : Magnitude) (place : Int) : Nat :=
  4 * m.significand * m.quarterStep place

/-- The point of the grid of step `10 ^ place` that reads back as `m` and is nearest to it. -/
def gridPoint? (m : Magnitude) (tie : Tie) (place : Int) : Option Nat :=
  let value := m.scaled place
  let step := m.gridStep place
  let below := value / step
  match m.covers place below, m.covers place (below + 1) with
  | true, true =>
    let twice := 2 * (value % step)
    if twice < step then some below
    else if step < twice then some (below + 1)
    else match tie with
      | .up => some (below + 1)
      | .toEven => some (below + below % 2)
  | true, false => some below
  | false, true => some (below + 1)
  | false, false => none

/-- The first hit on the grids `10 ^ place`, `10 ^ (place - 1)`, … -/
def firstHit (m : Magnitude) (tie : Tie) : Nat → Int → Decimal
  | 0, place => ⟨m.scaled place / m.gridStep place, place⟩
  | steps + 1, place =>
    match m.gridPoint? tie place with
    | some coefficient => ⟨coefficient, place⟩
    | none => m.firstHit tie steps (place - 1)

/-- The number of decimal digits of a natural, none for zero. -/
def digitCount (n : Nat) : Nat :=
  if n = 0 then 0 else (Nat.toDigits 10 n).length

/-- The fewest digits that read back as `m`; zero for zero. -/
def shortest (m : Magnitude) (tie : Tie) : Decimal :=
  if m.significand = 0 then ⟨0, 0⟩
  else
    let start := digitCount (m.scaled 0 / m.gridStep 0)
    m.firstHit tie (start + 1080) start

end Magnitude

example : (Magnitude.mk 1 (-1074)).shortest .up = ⟨5, -324⟩ := by decide +kernel
example : (Magnitude.ofBits 0x3fb999999999999a).shortest .up = ⟨1, -1⟩ := by decide +kernel
example : (Magnitude.ofBits 0x44b52d02c7e14af6).shortest .up = ⟨1, 23⟩ := by decide +kernel

end LoxLang
