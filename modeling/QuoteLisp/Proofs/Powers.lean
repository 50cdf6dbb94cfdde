import Mathlib.Algebra.Ring.Int.Parity
import Mathlib.Tactic.Ring
import QuoteLisp.Arith

/-!
# Integer powers

`Arith.powTimes` raises to a power by squaring, and every product on the way wraps around. Since
`Int64.ofInt`, which takes an integer to its residue, respects products, the loop can be told in
integers: its result times what is left of the power stays what it is (`mul_pow_eq_halved`), and so the
loop ends with the residue of the exact power (`powTimes_ofInt`), however often a partial product or a
square that is not needed any more has wrapped.

A negative exponent leads to a fraction, whose integer part is told without any loop. It is the exact
quotient, truncated, since a power of any other base than one and minus one is too large to divide one.
-/

set_option autoImplicit false

namespace QuoteLisp

namespace Arith

/-! ### Squaring -/

/-- One step of squaring: the exponent is halved, and an odd one leaves a factor to the result. -/
theorem mul_pow_eq_halved (result base : Int) (exponent : Nat) :
    result * base ^ exponent =
      (if exponent % 2 = 1 then result * base else result) * (base * base) ^ (exponent / 2) := by
  have hhalves : exponent = 2 * (exponent / 2) + exponent % 2 := (Nat.div_add_mod exponent 2).symm
  split
  · next hodd =>
      rw [hodd] at hhalves
      calc result * base ^ exponent
          = result * base ^ (2 * (exponent / 2) + 1) := by rw [← hhalves]
        _ = result * base * (base * base) ^ (exponent / 2) := by ring
  · next hodd =>
      have heven : exponent % 2 = 0 := by omega
      rw [heven] at hhalves
      calc result * base ^ exponent
          = result * base ^ (2 * (exponent / 2) + 0) := by rw [← hhalves]
        _ = result * (base * base) ^ (exponent / 2) := by ring

/-- Squaring ends with the residue of the exact power. -/
theorem powTimes_ofInt (result base : Int) (exponent : Nat) :
    powTimes (Int64.ofInt result) (Int64.ofInt base) exponent =
      Int64.ofInt (result * base ^ exponent) := by
  -- Result and base change at every step, so the induction on the exponent is for all of them.
  induction exponent using Nat.strong_induction_on generalizing result base with
  | h exponent ih =>
      rw [powTimes]
      by_cases hzero : exponent = 0
      · rw [dif_pos hzero, hzero, pow_zero, mul_one]
      · have hless : exponent / 2 < exponent :=
          Nat.div_lt_self (Nat.pos_of_ne_zero hzero) (by decide)
        have hresult : (if exponent % 2 = 1 then Int64.ofInt result * Int64.ofInt base
              else Int64.ofInt result) =
            Int64.ofInt (if exponent % 2 = 1 then result * base else result) := by
          split
          · rw [Int64.ofInt_mul]
          · rfl
        rw [dif_neg hzero, hresult, ← Int64.ofInt_mul, ih (exponent / 2) hless, ← mul_pow_eq_halved]

/-- A power with an exponent that is not negative is the residue of the exact power. -/
theorem powInt64_of_nonneg {base exponent : Int64} (h : 0 ≤ exponent) :
    powInt64 base exponent = .ok (Int64.ofInt (base.toInt ^ exponent.toInt.toNat)) := by
  have hpower := powTimes_ofInt 1 base.toInt exponent.toInt.toNat
  rw [Int64.ofInt_toInt, one_mul] at hpower
  rw [powInt64, if_pos h]
  exact congrArg Except.ok hpower

/-! ### Negative exponents -/

/-- A power of a base other than zero, one and minus one divides one no time at all. -/
theorem one_tdiv_pow_eq_zero {base : Int} {n : Nat} (hbase : 1 < base.natAbs) (hn : n ≠ 0) :
    Int.tdiv 1 (base ^ n) = 0 := by
  have hlarge : 1 < (base ^ n).natAbs := by
    rw [Int.natAbs_pow]
    exact Nat.one_lt_pow hn hbase
  have hsign := Int.sign_tdiv 1 (base ^ n)
  rw [Int.natAbs_one, if_pos hlarge] at hsign
  exact Int.sign_eq_zero_iff_zero.1 hsign

/-- A remainder by two tells whether the size of an exponent is even. -/
theorem rem_two_eq_zero_iff {exponent : Int64} : exponent % 2 = 0 ↔ Even exponent.toInt.natAbs := by
  have hrem : (exponent % 2).toInt = exponent.toInt.tmod 2 := Int64.toInt_mod exponent 2
  rw [← Int64.toInt_inj, hrem, Int64.toInt_zero, Int.natAbs_even, even_iff_two_dvd,
    Int.dvd_iff_tmod_eq_zero]

/-- A power with a negative exponent, of a base other than zero, is one divided by the power with
the exponent negated, rounded towards zero. -/
theorem powInt64_of_neg {base exponent : Int64} (h : exponent < 0) (hbase : base ≠ 0) :
    ∃ r, powInt64 base exponent = .ok r ∧
      r.toInt = Int.tdiv 1 (base.toInt ^ exponent.toInt.natAbs) := by
  have hneg : exponent.toInt < 0 := Int64.lt_iff_toInt_lt.1 h
  have hsize : exponent.toInt.natAbs ≠ 0 := by omega
  rw [powInt64, if_neg (Int64.not_le.2 h), if_neg hbase]
  split
  · next hone =>
      refine ⟨1, rfl, ?_⟩
      rw [hone, Int64.toInt_one, one_pow]
      rfl
  · next hone =>
      split
      · next hminus =>
          refine ⟨_, rfl, ?_⟩
          rw [hminus]
          show _ = Int.tdiv 1 ((-1) ^ exponent.toInt.natAbs)
          by_cases heven : Even exponent.toInt.natAbs
          · rw [if_pos (rem_two_eq_zero_iff.2 heven), heven.neg_one_pow]
            rfl
          · rw [if_neg fun hrem => heven (rem_two_eq_zero_iff.1 hrem),
              (Nat.not_even_iff_odd.1 heven).neg_one_pow]
            rfl
      · next hminus =>
          have hlarge : 1 < base.toInt.natAbs := by
            have hzero : base.toInt ≠ 0 := fun heq => hbase (Int64.toInt_inj.1 heq)
            have hone : base.toInt ≠ 1 := fun heq => hone (Int64.toInt_inj.1 heq)
            have hminus : base.toInt ≠ -1 := fun heq => hminus (Int64.toInt_inj.1 heq)
            omega
          exact ⟨0, rfl, (one_tdiv_pow_eq_zero hlarge hsize).symm⟩

/-- **Integer powers are exact powers, taken into range.** For an exponent that is not negative the
result is the residue of the exact power. A negative exponent of zero is a division by zero. Of any
other base it gives the exact quotient of one by the power whose exponent is the size of the given one,
truncated toward zero, even for the least exponent of all. -/
theorem integer_power_is_residue_or_quotient (base exponent : Int64) :
    (0 ≤ exponent →
      powInt64 base exponent = .ok (Int64.ofInt (base.toInt ^ exponent.toInt.toNat))) ∧
    (exponent < 0 → base = 0 → powInt64 base exponent = .error .divZero) ∧
    (exponent < 0 → base ≠ 0 →
      ∃ r, powInt64 base exponent = .ok r ∧
        r.toInt = Int.tdiv 1 (base.toInt ^ exponent.toInt.natAbs)) := by
  refine ⟨powInt64_of_nonneg, ?_, powInt64_of_neg⟩
  rintro hneg rfl
  rw [powInt64, if_neg (Int64.not_le.2 hneg), if_pos rfl]

/-- Three to the power of 41 does not fit into 64 bits and wraps around. The least exponent is even, so
it takes minus one to one. -/
theorem powers_at_the_limits :
    (0 : Int64) ≤ 41 ∧ powInt64 3 41 = .ok (-420491770248316829) ∧
      Int64.minValue < 0 ∧ powInt64 0 Int64.minValue = .error .divZero ∧
      (-1 : Int64) ≠ 0 ∧ powInt64 (-1) Int64.minValue = .ok 1 := by
  have hpos : (0 : Int64) ≤ 41 := by decide
  have hneg : Int64.minValue < 0 := by decide
  have hne : (-1 : Int64) ≠ 0 := by decide
  have hpower := (integer_power_is_residue_or_quotient 3 41).1 hpos
  have hzero := (integer_power_is_residue_or_quotient 0 Int64.minValue).2.1 hneg rfl
  obtain ⟨r, hr, hquotient⟩ := (integer_power_is_residue_or_quotient (-1) Int64.minValue).2.2 hneg hne
  have hone : r = 1 := by
    rw [← Int64.toInt_inj, hquotient]
    show Int.tdiv 1 ((-1) ^ (2 ^ 63)) = 1
    rw [Even.neg_one_pow (by decide)]
    rfl
  exact ⟨hpos, hpower, hneg, hzero, hne, hone ▸ hr⟩

end Arith

end QuoteLisp
