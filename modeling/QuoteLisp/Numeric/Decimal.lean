import QuoteLisp.Numeric.Double

/-!
# Decimals and the shortest decimal of a double

A `Decimal` is a coefficient times a power of ten. `Decimal.toMagnitude` rounds one to the nearest
double; `shortest` goes back, to the decimal with the fewest digits that rounds to the given double,
and of those to the nearest.
-/

set_option autoImplicit false

namespace QuoteLisp.Numeric

/-- The number `coefficient * 10 ^ exponent`. -/
structure Decimal where
  coefficient : Nat
  exponent : Int
  deriving DecidableEq, Repr

namespace Decimal

/-- A decimal from this power of ten on is beyond the largest double. -/
def hugeExponent : Nat := 400

/-- The magnitude bits of the double nearest to a decimal. Decimals far beyond the largest or far
below the least double are told by their exponent alone, so that no power of ten is larger than the
result can need. -/
def toMagnitude (d : Decimal) : Nat :=
  if d.coefficient = 0 then 0
  else
    match d.exponent with
    | .ofNat e =>
        if hugeExponent < e then infinityMagnitude
        else nearestMagnitude (d.coefficient * Nat.pow 10 e * unitsPerOne) 1
    | .negSucc e =>
        if hugeExponent + d.coefficient.log2 < e then 0
        else nearestMagnitude (d.coefficient * unitsPerOne) (Nat.pow 10 (e + 1))

/-- The decimal digits of the coefficient, the leading one first. -/
def digits (d : Decimal) : List Char :=
  Nat.toDigits 10 d.coefficient

/-- The power of ten at which the leading digit stands. -/
def leadingExponent (d : Decimal) : Int :=
  d.exponent + d.digits.length - 1

/-- The same number without zeros at the end of its coefficient, as far as `fuel` zeros go. -/
def trim : Nat → Decimal → Decimal
  | 0, d => d
  | fuel + 1, d =>
      if d.coefficient ≠ 0 ∧ d.coefficient % 10 = 0 then
        trim fuel ⟨d.coefficient / 10, d.exponent + 1⟩
      else d

/-- The power of ten of the leading digit of a positive number of units. Scaled by `10 ^ 324` even
one unit is above one, so the digits of the whole part tell. -/
def leadingExponentOfUnits (units : Nat) : Int :=
  ((Nat.toDigits 10 (units * Nat.pow 10 324 / unitsPerOne)).length : Int) - 325

/-- The multiple of `10 ^ exponent` next below a number of units, as a coefficient, with the
remainder and the divisor of that division. -/
def gridBelow (units : Nat) (exponent : Int) : Nat × Nat × Nat :=
  match exponent with
  | .ofNat e =>
      let den := unitsPerOne * Nat.pow 10 e
      (units / den, units % den, den)
  | .negSucc e =>
      let num := units * Nat.pow 10 (e + 1)
      (num / unitsPerOne, num % unitsPerOne, unitsPerOne)

/-- The multiple of `10 ^ exponent` that reads back as the double with these magnitude bits: of the
two neighbours the one that does, of two that do the nearer, and of two as near the upper. -/
def onGrid? (magnitude : Nat) (exponent : Int) : Option Decimal :=
  let (low, remainder, den) := gridBelow (magnitudeUnits magnitude) exponent
  let below : Decimal := ⟨low, exponent⟩
  let above : Decimal := ⟨low + 1, exponent⟩
  match below.toMagnitude == magnitude, above.toMagnitude == magnitude with
  | true, true => if 2 * remainder < den then some below else some above
  | true, false => some below
  | false, true => some above
  | false, false => none

/-- Tries ever finer grids. -/
def searchGrids (magnitude : Nat) : Nat → Int → Decimal
  | 0, exponent => ⟨(gridBelow (magnitudeUnits magnitude) exponent).1, exponent⟩
  | fuel + 1, exponent =>
      match onGrid? magnitude exponent with
      | some d => d
      | none => searchGrids magnitude fuel (exponent - 1)

/-- Every double lies on the grid of `10 ^ -1074`, and the leading digit of the largest stands at
`10 ^ 308`, so this many grids always suffice. -/
def gridBound : Nat := 1400

/-- The decimal with the fewest digits that reads back as the finite positive double with these
magnitude bits. -/
def shortest (magnitude : Nat) : Decimal :=
  trim gridBound
    (searchGrids magnitude gridBound (leadingExponentOfUnits (magnitudeUnits magnitude)))

end Decimal

end QuoteLisp.Numeric
