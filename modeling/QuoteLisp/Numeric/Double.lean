import QuoteLisp.Numeric.Rounding

/-!
# Double-precision numbers

A `Double` is its 64 bits. Sign, order and classification are read off the bits. Sum, difference,
product, quotient and power are those of the machine; the remainder and the conversion from an
integer are computed exactly in units and then rounded (`signedUnits_ofInt`).
-/

set_option autoImplicit false

namespace QuoteLisp.Numeric

/-- A double-precision number, given by its bits. -/
structure Double where
  bits : UInt64
  deriving DecidableEq, Repr

namespace Double

/-- The weight of the sign bit. -/
def signWeight : Nat := 0x8000000000000000

/-- A double from its sign and its magnitude bits. -/
def ofSign (negative : Bool) (magnitude : Nat) : Double :=
  ⟨UInt64.ofNat ((if negative then signWeight else 0) + magnitude)⟩

/-- The sign bit. -/
def isNegative (x : Double) : Bool :=
  signWeight ≤ x.bits.toNat

/-- The bits without the sign. -/
def magnitude (x : Double) : Nat :=
  x.bits.toNat % signWeight

/-- A magnitude leaves the sign bit free. -/
theorem magnitude_lt (x : Double) : x.magnitude < signWeight :=
  Nat.mod_lt _ (by decide)

/-- A double has the magnitude it was made with. -/
theorem magnitude_ofSign (negative : Bool) {m : Nat} (h : m < signWeight) :
    (ofSign negative m).magnitude = m := by
  cases negative <;> simp [ofSign, magnitude, signWeight] at h ⊢ <;> omega

/-- A double has the sign it was made with. -/
theorem isNegative_ofSign (negative : Bool) {m : Nat} (h : m < signWeight) :
    (ofSign negative m).isNegative = negative := by
  cases negative <;> simp [ofSign, isNegative, signWeight] at h ⊢ <;> omega

/-- A double is its sign and its magnitude. -/
theorem ofSign_isNegative_magnitude (x : Double) : ofSign x.isNegative x.magnitude = x := by
  have hlt := x.bits.toNat_lt
  have hbits : (if x.isNegative then signWeight else 0) + x.magnitude = x.bits.toNat := by
    by_cases h : signWeight ≤ x.bits.toNat
    · simp only [isNegative, h, decide_true, if_true, magnitude]
      simp only [signWeight] at h ⊢
      omega
    · simp only [isNegative, h, decide_false, magnitude]
      simp only [signWeight] at h ⊢
      simp
      omega
  simp [ofSign, hbits]

/-- A double is finite when its magnitude is below infinity. -/
def isFinite (x : Double) : Bool :=
  x.magnitude < infinityMagnitude

/-- A double is not a number when its magnitude is above infinity. -/
def isNaN (x : Double) : Bool :=
  infinityMagnitude < x.magnitude

/-- Both zeros are zero. -/
def isZero (x : Double) : Bool :=
  x.magnitude = 0

/-- The magnitude of a finite double in units. -/
def units (x : Double) : Nat :=
  magnitudeUnits x.magnitude

/-- The number that a finite double stands for, in units. -/
def signedUnits (x : Double) : Int :=
  if x.isNegative then -(x.units : Int) else x.units

/-- A key that orders doubles as numbers: the magnitude with the sign, both zeros at 0. -/
def orderKey (x : Double) : Int :=
  if x.isNegative then -(x.magnitude : Int) else x.magnitude

/-- Numeric equality: a NaN equals nothing, and the two zeros are equal. -/
def equal (x y : Double) : Bool :=
  !x.isNaN && !y.isNaN && x.orderKey == y.orderKey

/-- Numeric order: a NaN is below nothing and above nothing. -/
def less (x y : Double) : Bool :=
  !x.isNaN && !y.isNaN && decide (x.orderKey < y.orderKey)

/-- The same number with the other sign. -/
def neg (x : Double) : Double :=
  ofSign (!x.isNegative) x.magnitude

/-- Negation keeps the magnitude. -/
theorem magnitude_neg (x : Double) : x.neg.magnitude = x.magnitude :=
  magnitude_ofSign _ x.magnitude_lt

/-- Negation keeps finite numbers finite. -/
theorem isFinite_neg (x : Double) : x.neg.isFinite = x.isFinite := by
  simp only [isFinite, magnitude_neg]

/-- The double nearest to a quotient of units. -/
def nearest (negative : Bool) (num den : Nat) : Double :=
  ofSign negative (nearestMagnitude num den)

/-- The magnitude of what is nearest to a quotient is what the quotient is rounded to. -/
theorem magnitude_nearest (negative : Bool) (num den : Nat) :
    (nearest negative num den).magnitude = nearestMagnitude num den :=
  magnitude_ofSign negative (Nat.lt_of_le_of_lt (nearestMagnitude_le num den) (by decide))

/-- What is nearest to a quotient has the sign that was asked for. -/
theorem isNegative_nearest (negative : Bool) (num den : Nat) :
    (nearest negative num den).isNegative = negative :=
  isNegative_ofSign negative (Nat.lt_of_le_of_lt (nearestMagnitude_le num den) (by decide))

/-- A positive or negative infinity. -/
def infinity (negative : Bool) : Double :=
  ofSign negative infinityMagnitude

/-- A NaN. -/
def nan : Double :=
  ofSign false (infinityMagnitude + Nat.pow 2 (fractionBits - 1))

/-- The double nearest to an integer. -/
def ofInt (n : Int) : Double :=
  nearest (decide (n < 0)) (n.natAbs * unitsPerOne) 1

/-- What an integer is converted to has the sign of the integer and the rounded magnitude. -/
theorem signedUnits_ofInt (n : Int) :
    (ofInt n).signedUnits =
      if n < 0 then -(magnitudeUnits (nearestMagnitude (n.natAbs * unitsPerOne) 1) : Int)
      else magnitudeUnits (nearestMagnitude (n.natAbs * unitsPerOne) 1) := by
  simp only [signedUnits, units, ofInt, isNegative_nearest, magnitude_nearest, decide_eq_true_eq]

/-- The machine's number with these bits. -/
def toFloat (x : Double) : Float :=
  Float.ofBits x.bits

/-- The bits of a number of the machine. -/
def ofFloat (x : Float) : Double :=
  ⟨x.toBits⟩

/-- The rounded sum. -/
def add (x y : Double) : Double := ofFloat (x.toFloat + y.toFloat)

/-- The rounded difference. -/
def sub (x y : Double) : Double := ofFloat (x.toFloat - y.toFloat)

/-- The rounded product. -/
def mul (x y : Double) : Double := ofFloat (x.toFloat * y.toFloat)

/-- The rounded quotient. -/
def div (x y : Double) : Double := ofFloat (x.toFloat / y.toFloat)

/-- The first number raised to the second. -/
def pow (x y : Double) : Double := ofFloat (Float.pow x.toFloat y.toFloat)

/-- What is left of the first number after taking away the second a whole number of times, with the
sign of the first. Nothing is lost to rounding: the remainder is a whole number of units. -/
def rem (x y : Double) : Double :=
  if !x.isFinite || y.isNaN || y.isZero then nan
  else if !y.isFinite then x
  else nearest x.isNegative (x.units % y.units) 1

/-- The lesser of two numbers, or the one that is a number. -/
def min (x y : Double) : Double :=
  if x.isNaN then y else if y.isNaN then x else if y.less x then y else x

/-- The greater of two numbers, or the one that is a number. -/
def max (x y : Double) : Double :=
  if x.isNaN then y else if y.isNaN then x else if x.less y then y else x

end Double

end QuoteLisp.Numeric
