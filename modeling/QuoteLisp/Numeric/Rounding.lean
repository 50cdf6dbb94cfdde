/-!
# Rounding a quotient to a double

Every finite double is a whole number of units, where a unit is the least positive double,
`2 ^ -1074`. `magnitudeUnits` gives that number for the magnitude bits of a double (its bits without
the sign), and `nearestMagnitude` goes back: it rounds any quotient of units to the nearest double, a
half to the even neighbour, and to infinity when the result is too large. `roundDiv` does the rounding:
no multiple of the divisor is nearer to a number than that by the rounded quotient
(`roundDiv_nearest`), and of two that are as near it takes the even one (`roundDiv_even`).
-/

set_option autoImplicit false

namespace QuoteLisp.Numeric

/-- A quotient rounded to the nearest natural number, a half to the even neighbour. -/
def roundDiv (num den : Nat) : Nat :=
  let quotient := num / den
  let remainder := num % den
  if 2 * remainder < den then quotient
  else if den < 2 * remainder then quotient + 1
  else quotient + quotient % 2

/-- The number of fraction bits of a double. -/
def fractionBits : Nat := 52

/-- The power of two that one is in units. -/
def unitBits : Nat := 1074

/-- The number of units in one. -/
def unitsPerOne : Nat := Nat.pow 2 unitBits

/-- The magnitude bits of infinity; those of every finite double are less, those of every NaN are
more. -/
def infinityMagnitude : Nat := 0x7FF * Nat.pow 2 fractionBits

/-- The number of units that a finite double with these magnitude bits is worth. The part above the
fraction is the exponent: the values with exponents 0 and 1 share one spacing, and each exponent
after them doubles it. -/
def magnitudeUnits (magnitude : Nat) : Nat :=
  let exponent := magnitude / Nat.pow 2 fractionBits
  let fraction := magnitude % Nat.pow 2 fractionBits
  if exponent = 0 then fraction
  else (Nat.pow 2 fractionBits + fraction) * Nat.pow 2 (exponent - 1)

/-- The magnitude bits of the double nearest to `num / den` units. The quotient is cut to 53 bits by
dropping `shift` of them; a carry out of the fraction raises the exponent, as it should. -/
def nearestMagnitude (num den : Nat) : Nat :=
  let shift := (num / den).log2 - fractionBits
  min (shift * Nat.pow 2 fractionBits + roundDiv num (den * Nat.pow 2 shift)) infinityMagnitude

/-! ### What rounding gives -/

/-- A multiple of the divisor is rounded to what it is a multiple by. -/
theorem roundDiv_mul_self {den : Nat} (hden : 0 < den) (n : Nat) : roundDiv (n * den) den = n := by
  simp [roundDiv, Nat.mul_div_cancel n hden, hden]

/-- What a quotient is rounded to is told by its remainder. -/
theorem roundDiv_cases (num den : Nat) :
    2 * (num % den) < den ∧ roundDiv num den = num / den ∨
      den < 2 * (num % den) ∧ roundDiv num den = num / den + 1 ∨
        2 * (num % den) = den ∧ roundDiv num den = num / den + num / den % 2 := by
  simp only [roundDiv]
  split
  · next hless => exact .inl ⟨hless, rfl⟩
  · next hge =>
      split
      · next hgreater => exact .inr (.inl ⟨hgreater, rfl⟩)
      · exact .inr (.inr ⟨by omega, rfl⟩)

/-- A quotient is rounded to itself without its remainder or to the number after that. -/
theorem roundDiv_eq_or (num den : Nat) :
    roundDiv num den = num / den ∨ roundDiv num den = num / den + 1 := by
  have hround := roundDiv_cases num den
  omega

section Nearest

variable {num den : Nat}

/-- A multiple of the divisor is that below a number, that above it, or a whole divisor farther. -/
theorem multiple_cases (num den k : Nat) :
    den * k + den ≤ den * (num / den) ∨ k = num / den ∨ k = num / den + 1 ∨
      den * (num / den) + den + den ≤ den * k := by
  rcases Nat.lt_trichotomy k (num / den) with hlt | heq | hgt
  · exact .inl (Nat.mul_le_mul_left den hlt)
  · exact .inr (.inl heq)
  · rcases Nat.eq_or_lt_of_le hgt with heq | hgt'
    · exact .inr (.inr (.inl heq.symm))
    · have hmul := Nat.mul_le_mul_left den hgt'
      rw [Nat.mul_succ, Nat.mul_succ] at hmul
      exact .inr (.inr (.inr hmul))

/-- No multiple of the divisor is nearer to a number than that by the rounded quotient. -/
theorem roundDiv_nearest (hden : 0 < den) (num k : Nat) :
    ((num : Int) - (den * roundDiv num den : Nat)).natAbs ≤
      ((num : Int) - (den * k : Nat)).natAbs := by
  have hsplit := Nat.div_add_mod num den
  have hremainder := Nat.mod_lt num hden
  have hnext : den * (num / den + 1) = den * (num / den) + den := Nat.mul_succ _ _
  have hround := roundDiv_cases num den
  rcases roundDiv_eq_or num den with heq | heq <;>
    rcases multiple_cases num den k with hk | rfl | rfl | hk <;> rw [heq] at hround ⊢ <;> omega

/-- Of two multiples that are the nearest, the one by the even number is taken. -/
theorem roundDiv_even {k : Nat} (hden : 0 < den) (hne : k ≠ roundDiv num den)
    (htie : ((num : Int) - (den * k : Nat)).natAbs =
      ((num : Int) - (den * roundDiv num den : Nat)).natAbs) : roundDiv num den % 2 = 0 := by
  have hsplit := Nat.div_add_mod num den
  have hremainder := Nat.mod_lt num hden
  have hnext : den * (num / den + 1) = den * (num / den) + den := Nat.mul_succ _ _
  have hround := roundDiv_cases num den
  rcases roundDiv_eq_or num den with heq | heq <;>
    rcases multiple_cases num den k with hk | rfl | rfl | hk <;> rw [heq] at hround hne htie ⊢ <;> omega

end Nearest

/-- Rounding never goes beyond infinity. -/
theorem nearestMagnitude_le (num den : Nat) : nearestMagnitude num den ≤ infinityMagnitude :=
  Nat.min_le_right _ _

end QuoteLisp.Numeric
