import Mathlib.Tactic.Ring
import Mathlib.Tactic.Positivity
import QuoteLisp.Numeric.Decimal
import QuoteLisp.Proofs.NearestDoubles

/-!
# Rounding a decimal to a double

`nearestMagnitude` rounds a quotient, so it must not depend on how the quotient is written
(`nearestMagnitude_congr`), and it must give back the double when the quotient is a double already
(`nearestMagnitude_magnitudeUnits`). `Decimal.toMagnitude` rounds a decimal; it takes a short cut for
decimals that are far too large or far too small, and these give what rounding would give
(`toMagnitude_eq_nearestMagnitude`). So no double is nearer to a decimal than the one it is rounded to
(`toMagnitude_nearest`), and zeros at the end of a coefficient make no difference to it
(`toMagnitude_mul_pow`).
-/

set_option autoImplicit false

namespace QuoteLisp.Numeric

/-! ### Quotients -/

/-- A quotient is rounded to the same number after it is expanded. -/
theorem roundDiv_mul_left {k : Nat} (hk : 0 < k) (num den : Nat) :
    roundDiv (k * num) (k * den) = roundDiv num den := by
  have hlt : ∀ a b : Nat, k * a < k * b ↔ a < b := fun a b => Nat.mul_lt_mul_left hk
  simp only [roundDiv, Nat.mul_div_mul_left _ _ hk, Nat.mul_mod_mul_left, Nat.mul_left_comm 2 k, hlt]

/-- A quotient is rounded to the same double after it is expanded. -/
theorem nearestMagnitude_mul_left {k : Nat} (hk : 0 < k) (num den : Nat) :
    nearestMagnitude (k * num) (k * den) = nearestMagnitude num den := by
  simp only [nearestMagnitude, Nat.mul_div_mul_left _ _ hk, Nat.mul_assoc, roundDiv_mul_left hk]

/-- Rounding depends on the quotient only. -/
theorem nearestMagnitude_congr {num den num' den' : Nat} (hden : 0 < den) (hden' : 0 < den')
    (h : num * den' = num' * den) : nearestMagnitude num den = nearestMagnitude num' den' := by
  calc nearestMagnitude num den = nearestMagnitude (den' * num) (den' * den) :=
        (nearestMagnitude_mul_left hden' num den).symm
    _ = nearestMagnitude (den * num') (den * den') := by
        rw [Nat.mul_comm den' num, h, Nat.mul_comm num' den, Nat.mul_comm den' den]
    _ = nearestMagnitude num' den' := nearestMagnitude_mul_left hden num' den'

/-- Less than half a unit is rounded to zero. -/
theorem nearestMagnitude_eq_zero {num den : Nat} (h : 2 * num < den) :
    nearestMagnitude num den = 0 := by
  have hdiv : num / den = 0 := Nat.div_eq_of_lt (by omega)
  have hmod : num % den = num := Nat.mod_eq_of_lt (by omega)
  simp [nearestMagnitude, roundDiv, hdiv, hmod, h]

/-- Beyond the largest exponent there is only infinity. -/
theorem nearestMagnitude_eq_infinityMagnitude {num den n : Nat} (hn : 2099 ≤ n)
    (h : 2 ^ n ≤ num / den) : nearestMagnitude num den = infinityMagnitude := by
  have hne : num / den ≠ 0 := (Nat.lt_of_lt_of_le (Nat.two_pow_pos n) h).ne'
  have hlog : n ≤ (num / den).log2 := (Nat.le_log2 hne).2 h
  have hshift : 2047 ≤ (num / den).log2 - fractionBits := by
    simp only [fractionBits]
    omega
  have hexponent : infinityMagnitude ≤
      ((num / den).log2 - fractionBits) * Nat.pow 2 fractionBits :=
    Nat.mul_le_mul_right _ hshift
  simp only [nearestMagnitude]
  omega

/-! ### Doubles are rounded to themselves -/

/-- A number of units that starts above the fraction bits is cut to them exactly. -/
theorem log2_normal {fraction : Nat} (hfraction : fraction < 2 ^ fractionBits) (e : Nat) :
    ((2 ^ fractionBits + fraction) * 2 ^ e).log2 = fractionBits + e := by
  have hlow : 2 ^ (fractionBits + e) ≤ (2 ^ fractionBits + fraction) * 2 ^ e := by
    rw [Nat.pow_add]
    exact Nat.mul_le_mul_right _ (Nat.le_add_right _ _)
  have hhigh : (2 ^ fractionBits + fraction) * 2 ^ e < 2 ^ (fractionBits + e + 1) := by
    have hpow : 2 ^ (fractionBits + e + 1) = (2 ^ fractionBits + 2 ^ fractionBits) * 2 ^ e := by ring
    rw [hpow]
    exact Nat.mul_lt_mul_of_pos_right (Nat.add_lt_add_left hfraction _) (Nat.two_pow_pos e)
  have hne : (2 ^ fractionBits + fraction) * 2 ^ e ≠ 0 :=
    (Nat.lt_of_lt_of_le (Nat.two_pow_pos _) hlow).ne'
  have hle := (Nat.le_log2 hne).2 hlow
  have hlt := (Nat.log2_lt hne).2 hhigh
  omega

/-- A number within the fraction bits has none to cut. -/
theorem log2_subnormal {fraction : Nat} (hfraction : fraction < 2 ^ fractionBits) :
    fraction.log2 - fractionBits = 0 := by
  by_cases hzero : fraction = 0
  · rw [hzero]
    rfl
  · have hlt := (Nat.log2_lt hzero).2 hfraction
    omega

/-- The number of units of a finite double is rounded to that double. -/
theorem nearestMagnitude_magnitudeUnits {m : Nat} (hm : m < infinityMagnitude) :
    nearestMagnitude (magnitudeUnits m) 1 = m := by
  have hsplit : 2 ^ fractionBits * (m / 2 ^ fractionBits) + m % 2 ^ fractionBits = m :=
    Nat.div_add_mod m _
  have hfraction : m % 2 ^ fractionBits < 2 ^ fractionBits := Nat.mod_lt _ (Nat.two_pow_pos _)
  have hmin : min m infinityMagnitude = m := Nat.min_eq_left hm.le
  simp only [magnitudeUnits, nearestMagnitude, Nat.div_one, Nat.pow_eq, Nat.one_mul]
  generalize m / 2 ^ fractionBits = exponent at hsplit
  generalize m % 2 ^ fractionBits = fraction at hsplit hfraction
  cases exponent with
  | zero =>
      rw [if_pos rfl, log2_subnormal hfraction, Nat.zero_mul, Nat.zero_add, Nat.pow_zero]
      have hround := roundDiv_mul_self Nat.one_pos fraction
      rw [Nat.mul_one] at hround
      rw [Nat.mul_zero, Nat.zero_add] at hsplit
      rw [hround, hsplit, hmin]
  | succ e =>
      rw [if_neg (Nat.succ_ne_zero e), Nat.add_sub_cancel, log2_normal hfraction,
        Nat.add_sub_cancel_left, roundDiv_mul_self (Nat.two_pow_pos e)]
      have hsum : e * 2 ^ fractionBits + (2 ^ fractionBits + fraction) = m := by
        rw [← hsplit]
        ring
      rw [hsum, hmin]

/-! ### Decimals -/

namespace Decimal

/-- The numerator of the number of units that a decimal is worth. -/
def numerator (d : Decimal) : Nat :=
  match d.exponent with
  | .ofNat e => d.coefficient * 10 ^ e * unitsPerOne
  | .negSucc _ => d.coefficient * unitsPerOne

/-- The denominator of the number of units that a decimal is worth. -/
def denominator (d : Decimal) : Nat :=
  match d.exponent with
  | .ofNat _ => 1
  | .negSucc e => 10 ^ (e + 1)

/-- The denominator of a decimal is positive. -/
theorem denominator_pos (d : Decimal) : 0 < d.denominator := by
  unfold denominator
  split <;> positivity

/-- A power of ten is at least the power of two with three times its exponent. -/
theorem two_pow_le_ten_pow (n : Nat) : 2 ^ (3 * n) ≤ 10 ^ n := by
  rw [Nat.pow_mul]
  exact Nat.pow_le_pow_left (by decide) n

/-- A decimal with a large exponent is beyond the largest double. -/
theorem nearestMagnitude_of_huge {c e : Nat} (hc : c ≠ 0) (he : hugeExponent < e) :
    nearestMagnitude (c * 10 ^ e * unitsPerOne) 1 = infinityMagnitude := by
  have hn : 2099 ≤ 3 * e + unitBits := by
    simp only [hugeExponent, unitBits] at he ⊢
    omega
  have hpow : 2 ^ (3 * e) ≤ c * 10 ^ e :=
    (two_pow_le_ten_pow e).trans (Nat.le_mul_of_pos_left _ (Nat.pos_of_ne_zero hc))
  apply nearestMagnitude_eq_infinityMagnitude hn
  rw [Nat.div_one, ← two_pow_mul_unitsPerOne]
  exact Nat.mul_le_mul_right _ hpow

/-- A decimal with a small exponent is below half of the least double. -/
theorem nearestMagnitude_of_tiny {c e : Nat} (he : hugeExponent + c.log2 < e) :
    nearestMagnitude (c * unitsPerOne) (10 ^ (e + 1)) = 0 := by
  apply nearestMagnitude_eq_zero
  have hc : 2 * c < 2 ^ (c.log2 + 2) := by
    have hlog := @Nat.lt_log2_self c
    rw [Nat.pow_succ]
    omega
  have hexp : c.log2 + 2 + unitBits ≤ 3 * (e + 1) := by
    simp only [hugeExponent, unitBits] at he ⊢
    omega
  calc 2 * (c * unitsPerOne) = 2 * c * unitsPerOne := (Nat.mul_assoc ..).symm
    _ < 2 ^ (c.log2 + 2) * unitsPerOne := Nat.mul_lt_mul_of_pos_right hc unitsPerOne_pos
    _ = 2 ^ (c.log2 + 2 + unitBits) := two_pow_mul_unitsPerOne _
    _ ≤ 2 ^ (3 * (e + 1)) := Nat.pow_le_pow_right (by decide) hexp
    _ ≤ 10 ^ (e + 1) := two_pow_le_ten_pow _

/-- A decimal is rounded as the quotient that it is, short cuts included. -/
theorem toMagnitude_eq_nearestMagnitude (d : Decimal) :
    d.toMagnitude = nearestMagnitude d.numerator d.denominator := by
  obtain ⟨c, exponent⟩ := d
  by_cases hc : c = 0
  · have hnum : (⟨c, exponent⟩ : Decimal).numerator = 0 := by
      cases exponent <;> simp [numerator, hc]
    rw [hnum, nearestMagnitude_eq_zero (denominator_pos _)]
    simp [toMagnitude, hc]
  · cases exponent with
    | ofNat e =>
        simp only [toMagnitude, hc, if_false, numerator, denominator]
        split
        · next he => exact (nearestMagnitude_of_huge hc he).symm
        · rfl
    | negSucc e =>
        simp only [toMagnitude, hc, if_false, numerator, denominator]
        split
        · next he => exact (nearestMagnitude_of_tiny he).symm
        · rfl

/-- **No double is nearer to a decimal than the one it is rounded to.** -/
theorem toMagnitude_nearest {d : Decimal} (hfinite : d.toMagnitude < infinityMagnitude) (m : Nat) :
    ((d.numerator : Int) - (d.denominator * magnitudeUnits d.toMagnitude : Nat)).natAbs ≤
      ((d.numerator : Int) - (d.denominator * magnitudeUnits m : Nat)).natAbs := by
  rw [toMagnitude_eq_nearestMagnitude] at hfinite ⊢
  exact nearestMagnitude_nearest d.denominator_pos hfinite m

/-- A zero at the end of the coefficient makes no difference. -/
theorem toMagnitude_mul_ten (c : Nat) (exponent : Int) :
    toMagnitude ⟨c * 10, exponent - 1⟩ = toMagnitude ⟨c, exponent⟩ := by
  rw [toMagnitude_eq_nearestMagnitude, toMagnitude_eq_nearestMagnitude]
  apply nearestMagnitude_congr (denominator_pos _) (denominator_pos _)
  match exponent with
  | .ofNat 0 =>
      show c * 10 * unitsPerOne * 1 = c * 10 ^ 0 * unitsPerOne * 10 ^ 1
      ring
  | .ofNat (e + 1) =>
      have hexp : Int.ofNat (e + 1) - 1 = Int.ofNat e := by simp
      rw [hexp]
      show c * 10 * 10 ^ e * unitsPerOne * 1 = c * 10 ^ (e + 1) * unitsPerOne * 1
      ring
  | .negSucc e =>
      have hexp : Int.negSucc e - 1 = Int.negSucc (e + 1) := by omega
      rw [hexp]
      show c * 10 * unitsPerOne * 10 ^ (e + 1) = c * unitsPerOne * 10 ^ (e + 1 + 1)
      ring

/-- Zeros at the end of the coefficient make no difference. -/
theorem toMagnitude_mul_pow (c : Nat) (exponent : Int) (k : Nat) :
    toMagnitude ⟨c * 10 ^ k, exponent - k⟩ = toMagnitude ⟨c, exponent⟩ := by
  induction k with
  | zero => simp
  | succ k ih =>
      have hexp : exponent - (k + 1 : Nat) = exponent - k - 1 := by omega
      rw [hexp, Nat.pow_succ, ← Nat.mul_assoc, toMagnitude_mul_ten, ih]

end Decimal

end QuoteLisp.Numeric
