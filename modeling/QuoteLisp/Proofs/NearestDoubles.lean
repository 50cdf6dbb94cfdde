import Mathlib.Tactic.Ring
import QuoteLisp.Numeric.Double

/-!
# Rounding to the nearest double

Every double is worth at most 53 bits above a power of two of units
(`exists_two_pow_dvd_magnitudeUnits`). `nearestMagnitude` keeps as many bits of a quotient and rounds
what is left, so no double is nearer to the quotient than the one it is rounded to
(`nearestMagnitude_nearest`), of two that are as near it is the even one (`nearestMagnitude_even`), and
a number that has no more bits loses nothing (`nearestMagnitude_exact`). An integer of up to 53 bits is
therefore converted exactly (`Double.ofInt_exact`), a longer one to the nearest double
(`Double.ofInt_nearest`, `Double.ofInt_even`), and the remainder of two doubles is always a double
(`Double.signedUnits_rem`).
-/

set_option autoImplicit false

namespace QuoteLisp.Numeric

/-! ### Units -/

/-- One is a power of two of units. -/
theorem unitsPerOne_eq : unitsPerOne = 2 ^ unitBits := by
  unfold unitsPerOne
  -- The exponent is put aside so that nothing computes the power.
  generalize unitBits = n
  rfl

/-- One is worth at least a unit. -/
theorem unitsPerOne_pos : 0 < unitsPerOne := by
  rw [unitsPerOne_eq]
  exact Nat.two_pow_pos unitBits

/-- A power of two is a power of two of units. -/
theorem two_pow_mul_unitsPerOne (n : Nat) : 2 ^ n * unitsPerOne = 2 ^ (n + unitBits) := by
  rw [unitsPerOne_eq, Nat.pow_add]

/-- The exponent and the fraction of a magnitude give its units. -/
theorem magnitudeUnits_add {fraction : Nat} (hfraction : fraction < 2 ^ fractionBits)
    (exponent : Nat) :
    magnitudeUnits (exponent * 2 ^ fractionBits + fraction) =
      if exponent = 0 then fraction else (2 ^ fractionBits + fraction) * 2 ^ (exponent - 1) := by
  have hdiv : (exponent * 2 ^ fractionBits + fraction) / 2 ^ fractionBits = exponent := by
    rw [Nat.add_comm, Nat.add_mul_div_right _ _ (Nat.two_pow_pos _), Nat.div_eq_of_lt hfraction,
      Nat.zero_add]
  have hmod : (exponent * 2 ^ fractionBits + fraction) % 2 ^ fractionBits = fraction := by
    rw [Nat.add_comm, Nat.add_mul_mod_self_right, Nat.mod_eq_of_lt hfraction]
  simp only [magnitudeUnits, Nat.pow_eq, hdiv, hmod]

/-- Only a zero is worth no unit. -/
theorem magnitudeUnits_pos {m : Nat} (hm : m ≠ 0) : 0 < magnitudeUnits m := by
  have hsplit := Nat.div_add_mod m (2 ^ fractionBits)
  simp only [magnitudeUnits, Nat.pow_eq]
  split
  · next hzero =>
      rw [hzero, Nat.mul_zero] at hsplit
      omega
  · exact Nat.mul_pos (Nat.add_pos_left (Nat.two_pow_pos _) _) (Nat.two_pow_pos _)

/-- The largest finite doubles are this power of two of units apart. -/
def maxShift : Nat := 2045

/-- The worth of a double has at most 53 bits above some power of two, and that power is bounded when the
double is finite. -/
theorem exists_two_pow_dvd_magnitudeUnits (m : Nat) :
    ∃ e, 2 ^ e ∣ magnitudeUnits m ∧ magnitudeUnits m < 2 ^ (e + fractionBits + 1) ∧
      (m < infinityMagnitude → e ≤ maxShift) := by
  have hfraction : m % 2 ^ fractionBits < 2 ^ fractionBits := Nat.mod_lt _ (Nat.two_pow_pos _)
  have hexponent : m < infinityMagnitude → m / 2 ^ fractionBits < 0x7FF := fun hm =>
    (Nat.div_lt_iff_lt_mul (Nat.two_pow_pos _)).2 hm
  simp only [magnitudeUnits, Nat.pow_eq]
  generalize m % 2 ^ fractionBits = fraction at hfraction
  generalize m / 2 ^ fractionBits = exponent at hexponent
  cases exponent with
  | zero =>
      rw [if_pos rfl]
      refine ⟨0, Nat.one_dvd _, Nat.lt_trans hfraction ?_, fun _ => Nat.zero_le _⟩
      exact Nat.pow_lt_pow_right Nat.one_lt_two (by omega)
  | succ e =>
      rw [if_neg (Nat.succ_ne_zero e), Nat.add_sub_cancel]
      have hshift : m < infinityMagnitude → e ≤ maxShift := fun hm =>
        Nat.le_of_lt_succ (Nat.lt_of_succ_lt_succ (hexponent hm))
      refine ⟨e, Nat.dvd_mul_left _ _, ?_, hshift⟩
      rw [Nat.add_assoc, Nat.pow_add, Nat.mul_comm, Nat.pow_succ]
      exact Nat.mul_lt_mul_of_pos_left (by omega) (Nat.two_pow_pos e)

/-- The worth of a double is a multiple of a power of two, or it has too few bits above that power to
fill the fraction. -/
theorem two_pow_dvd_magnitudeUnits_or_lt (m shift : Nat) :
    2 ^ shift ∣ magnitudeUnits m ∨
      shift ≠ 0 ∧ magnitudeUnits m < 2 ^ shift * 2 ^ fractionBits := by
  obtain ⟨e, hdvd, hlt, -⟩ := exists_two_pow_dvd_magnitudeUnits m
  rcases Nat.lt_or_ge e shift with hless | hge
  · refine .inr ⟨by omega, ?_⟩
    rw [← Nat.pow_add]
    exact Nat.lt_of_lt_of_le hlt (Nat.pow_le_pow_right Nat.two_pos (by omega))
  · exact .inl (Nat.dvd_trans (Nat.pow_dvd_pow 2 hge) hdvd)

/-! ### The nearest double -/

/-- The magnitude that `nearestMagnitude` puts together is worth the rounded quotient times the
power of two that was dropped, also when rounding carried the quotient to its next bit. -/
theorem magnitudeUnits_shifted {shift quotient : Nat}
    (hlow : shift = 0 ∨ 2 ^ fractionBits ≤ quotient) (hhigh : quotient ≤ 2 * 2 ^ fractionBits) :
    magnitudeUnits (shift * 2 ^ fractionBits + quotient) = quotient * 2 ^ shift := by
  have hpos := Nat.two_pow_pos fractionBits
  rcases Nat.lt_or_ge quotient (2 ^ fractionBits) with hsmall | hbig
  · have hshift : shift = 0 := by omega
    rw [hshift, magnitudeUnits_add hsmall, if_pos rfl, Nat.pow_zero, Nat.mul_one]
  · rcases Nat.lt_or_eq_of_le hhigh with hless | heq
    · have hsum : shift * 2 ^ fractionBits + quotient =
          (shift + 1) * 2 ^ fractionBits + (quotient - 2 ^ fractionBits) := by
        rw [Nat.add_mul, Nat.one_mul]
        omega
      rw [hsum, magnitudeUnits_add (by omega), if_neg (Nat.succ_ne_zero shift), Nat.add_sub_cancel,
        Nat.add_sub_cancel' hbig]
    · have hsum : shift * 2 ^ fractionBits + quotient = (shift + 2) * 2 ^ fractionBits + 0 := by
        rw [Nat.add_mul, heq, Nat.add_zero]
      rw [hsum, magnitudeUnits_add hpos, if_neg (Nat.succ_ne_zero _), Nat.add_zero, heq,
        Nat.mul_comm 2, Nat.mul_assoc, Nat.mul_comm 2, ← Nat.pow_succ]
      rfl

section Rounded

-- A quotient, and the number of bits that rounding drops from it.
variable {num den shift : Nat}

/-- If bits are dropped, the divisor that drops them fits into the number as often as the fraction
bits can count. -/
theorem mul_two_pow_le_of_dropped (hden : 0 < den)
    (hshift : (num / den).log2 - fractionBits = shift) :
    shift = 0 ∨ den * 2 ^ shift * 2 ^ fractionBits ≤ num := by
  by_cases hzero : shift = 0
  · exact .inl hzero
  · have hne : num / den ≠ 0 := by
      intro hquotient
      rw [hquotient, Nat.log2_zero] at hshift
      omega
    have hlog : shift + fractionBits = (num / den).log2 := by omega
    have hpow := Nat.log2_self_le hne
    rw [← hlog, Nat.le_div_iff_mul_le hden, Nat.pow_add, Nat.mul_comm _ den,
      ← Nat.mul_assoc] at hpow
    exact .inr hpow

/-- The rounded quotient has at most one bit more than the fraction, or is the next power of two. -/
theorem roundDiv_le_of_dropped (hden : 0 < den)
    (hshift : (num / den).log2 - fractionBits = shift) :
    roundDiv num (den * 2 ^ shift) ≤ 2 * 2 ^ fractionBits := by
  have hdivisor : 0 < den * 2 ^ shift := Nat.mul_pos hden (Nat.two_pow_pos shift)
  have hbits : (num / den).log2 + 1 ≤ fractionBits + 1 + shift := by omega
  have hnum : num / den < 2 ^ (fractionBits + 1 + shift) :=
    Nat.lt_of_lt_of_le Nat.lt_log2_self (Nat.pow_le_pow_right Nat.two_pos hbits)
  rw [Nat.pow_add, Nat.div_lt_iff_lt_mul hden, Nat.mul_assoc, Nat.mul_comm _ den,
    ← Nat.div_lt_iff_lt_mul hdivisor, Nat.pow_succ] at hnum
  have hround := roundDiv_eq_or num (den * 2 ^ shift)
  omega

/-- A quotient well below the largest exponent is rounded to a finite double. -/
theorem nearestMagnitude_lt_infinityMagnitude (hden : 0 < den)
    (h : (num / den).log2 < maxShift + fractionBits) :
    nearestMagnitude num den < infinityMagnitude := by
  have hround := roundDiv_le_of_dropped hden (Eq.refl ((num / den).log2 - fractionBits))
  simp only [nearestMagnitude, infinityMagnitude, maxShift, fractionBits, Nat.pow_eq] at h hround ⊢
  omega

/-- A quotient that is rounded to a finite double is rounded to the kept bits behind their exponent. -/
theorem nearestMagnitude_eq_add (hshift : (num / den).log2 - fractionBits = shift)
    (hfinite : nearestMagnitude num den < infinityMagnitude) :
    nearestMagnitude num den = shift * 2 ^ fractionBits + roundDiv num (den * 2 ^ shift) := by
  simp only [nearestMagnitude, Nat.pow_eq, hshift] at hfinite ⊢
  omega

/-- What a quotient is rounded to is worth the rounded quotient of the bits that are kept. -/
theorem mul_magnitudeUnits_nearestMagnitude (hden : 0 < den)
    (hshift : (num / den).log2 - fractionBits = shift)
    (hfinite : nearestMagnitude num den < infinityMagnitude) :
    den * magnitudeUnits (nearestMagnitude num den) =
      den * 2 ^ shift * roundDiv num (den * 2 ^ shift) := by
  have hdivisor : 0 < den * 2 ^ shift := Nat.mul_pos hden (Nat.two_pow_pos shift)
  have hlow : shift = 0 ∨ 2 ^ fractionBits ≤ roundDiv num (den * 2 ^ shift) := by
    refine (mul_two_pow_le_of_dropped hden hshift).imp_right fun h => ?_
    have hround := roundDiv_eq_or num (den * 2 ^ shift)
    rw [Nat.mul_comm, ← Nat.le_div_iff_mul_le hdivisor] at h
    omega
  rw [nearestMagnitude_eq_add hshift hfinite,
    magnitudeUnits_shifted hlow (roundDiv_le_of_dropped hden hshift), Nat.mul_comm _ (2 ^ shift),
    Nat.mul_assoc]

/-- A double is worth a multiple of what rounding leaves, or such a multiple is nearer than the
double: one with more bits lies below all quotients of that size, so the least multiple of that size
is nearer. -/
theorem exists_multiple_eq_or_nearer (hden : 0 < den)
    (hshift : (num / den).log2 - fractionBits = shift) (m : Nat) :
    ∃ k, den * magnitudeUnits m = den * 2 ^ shift * k ∨
      ((num : Int) - (den * 2 ^ shift * k : Nat)).natAbs <
        ((num : Int) - (den * magnitudeUnits m : Nat)).natAbs := by
  rcases two_pow_dvd_magnitudeUnits_or_lt m shift with ⟨k, hk⟩ | ⟨hne, hlt⟩
  · exact ⟨k, .inl (by rw [hk, Nat.mul_assoc])⟩
  · refine ⟨2 ^ fractionBits, .inr ?_⟩
    have hkept := (mul_two_pow_le_of_dropped hden hshift).resolve_left hne
    have hbelow : den * magnitudeUnits m < den * 2 ^ shift * 2 ^ fractionBits := by
      rw [Nat.mul_assoc]
      exact Nat.mul_lt_mul_of_pos_left hlt hden
    -- the powers are put aside so that nothing computes them
    generalize den * 2 ^ shift * 2 ^ fractionBits = least at hkept hbelow ⊢
    omega

/-- **No double is nearer to a quotient than the one it is rounded to.** -/
theorem nearestMagnitude_nearest (hden : 0 < den)
    (hfinite : nearestMagnitude num den < infinityMagnitude) (m : Nat) :
    ((num : Int) - (den * magnitudeUnits (nearestMagnitude num den) : Nat)).natAbs ≤
      ((num : Int) - (den * magnitudeUnits m : Nat)).natAbs := by
  obtain ⟨shift, hshift⟩ : ∃ shift, (num / den).log2 - fractionBits = shift := ⟨_, rfl⟩
  have hdivisor : 0 < den * 2 ^ shift := Nat.mul_pos hden (Nat.two_pow_pos shift)
  have hnearest := roundDiv_nearest hdivisor num
  rw [← mul_magnitudeUnits_nearestMagnitude hden hshift hfinite] at hnearest
  obtain ⟨k, heq | hnearer⟩ := exists_multiple_eq_or_nearer hden hshift m
  · rw [heq]
    exact hnearest k
  · exact Nat.le_trans (hnearest k) (Nat.le_of_lt hnearer)

/-- **Of two nearest doubles the one whose last bit is zero is taken.** -/
theorem nearestMagnitude_even (hden : 0 < den)
    (hfinite : nearestMagnitude num den < infinityMagnitude) {m : Nat}
    (hne : magnitudeUnits m ≠ magnitudeUnits (nearestMagnitude num den))
    (htie : ((num : Int) - (den * magnitudeUnits m : Nat)).natAbs =
      ((num : Int) - (den * magnitudeUnits (nearestMagnitude num den) : Nat)).natAbs) :
    nearestMagnitude num den % 2 = 0 := by
  obtain ⟨shift, hshift⟩ : ∃ shift, (num / den).log2 - fractionBits = shift := ⟨_, rfl⟩
  have hdivisor : 0 < den * 2 ^ shift := Nat.mul_pos hden (Nat.two_pow_pos shift)
  have hworth := mul_magnitudeUnits_nearestMagnitude hden hshift hfinite
  have hnearest := roundDiv_nearest hdivisor num
  rw [hworth] at htie
  obtain ⟨k, heq | hnearer⟩ := exists_multiple_eq_or_nearer hden hshift m
  · have hk : k ≠ roundDiv num (den * 2 ^ shift) := by
      rintro rfl
      exact hne (Nat.eq_of_mul_eq_mul_left hden (heq.trans hworth.symm))
    rw [heq] at htie
    have heven := roundDiv_even hdivisor hk htie
    have hbit : 2 ^ fractionBits % 2 = 0 := by decide
    rw [nearestMagnitude_eq_add hshift hfinite, Nat.add_mod, Nat.mul_mod, hbit, heven]
    rfl
  · exact absurd (hnearest k) (by omega)

end Rounded

/-- A number of units of at most 53 bits above a power of two is worth a double and rounded to it. -/
theorem nearestMagnitude_exact {units e : Nat} (hdvd : 2 ^ e ∣ units)
    (hlt : units < 2 ^ (e + fractionBits + 1)) (he : e ≤ maxShift) :
    nearestMagnitude units 1 < infinityMagnitude ∧
      magnitudeUnits (nearestMagnitude units 1) = units := by
  obtain ⟨shift, hshift⟩ : ∃ shift, units.log2 - fractionBits = shift := ⟨_, rfl⟩
  have hdropped : shift ≤ e := by
    by_cases hzero : units = 0
    · rw [hzero, Nat.log2_zero] at hshift
      omega
    · have hlog := (Nat.log2_lt hzero).2 hlt
      omega
  obtain ⟨k, rfl⟩ := Nat.dvd_trans (Nat.pow_dvd_pow 2 hdropped) hdvd
  have hround : roundDiv (2 ^ shift * k) (1 * 2 ^ shift) = k := by
    rw [Nat.one_mul, Nat.mul_comm, roundDiv_mul_self (Nat.two_pow_pos shift)]
  have hfinite : nearestMagnitude (2 ^ shift * k) 1 < infinityMagnitude := by
    -- nothing is carried, as the number is a multiple of what is dropped
    have hk : k < 2 ^ (fractionBits + 1) := by
      have hbits : (2 ^ shift * k).log2 + 1 ≤ shift + (fractionBits + 1) := by
        omega
      have hunits := Nat.lt_of_lt_of_le (@Nat.lt_log2_self (2 ^ shift * k))
        (Nat.pow_le_pow_right Nat.two_pos hbits)
      rw [Nat.pow_add] at hunits
      exact Nat.lt_of_mul_lt_mul_left hunits
    simp only [nearestMagnitude, Nat.pow_eq, Nat.div_one, hshift, hround]
    simp only [infinityMagnitude, maxShift, fractionBits, Nat.pow_eq] at he hk ⊢
    omega
  refine ⟨hfinite, ?_⟩
  rw [← Nat.div_one (2 ^ shift * k)] at hshift
  have hworth := mul_magnitudeUnits_nearestMagnitude Nat.one_pos hshift hfinite
  rw [hround, Nat.one_mul, Nat.one_mul] at hworth
  exact hworth

namespace Double

/-! ### Integers and remainders -/

/-- An integer has as many bits more in units as one has. -/
theorem log2_mul_unitsPerOne_lt {a bits : Nat} (hbits : 0 < bits) (ha : a < 2 ^ bits) :
    (a * unitsPerOne).log2 < bits + unitBits := by
  by_cases hzero : a * unitsPerOne = 0
  · rw [hzero, Nat.log2_zero]
    omega
  · rw [Nat.log2_lt hzero, ← two_pow_mul_unitsPerOne]
    exact Nat.mul_lt_mul_of_pos_right ha unitsPerOne_pos

/-- Integers of up to 64 bits are converted to finite doubles. -/
theorem isFinite_ofInt {n : Int} (hn : n.natAbs < 2 ^ 64) : (ofInt n).isFinite = true := by
  have hlog := log2_mul_unitsPerOne_lt (by decide) hn
  simp only [isFinite, ofInt, magnitude_nearest, decide_eq_true_eq]
  apply nearestMagnitude_lt_infinityMagnitude Nat.one_pos
  rw [Nat.div_one]
  simp only [unitBits] at hlog
  simp only [maxShift, fractionBits]
  omega

/-- An integer in units has the sign of the integer. -/
theorem mul_unitsPerOne_eq (n : Int) :
    n * unitsPerOne =
      if n < 0 then -((n.natAbs * unitsPerOne : Nat) : Int) else (n.natAbs * unitsPerOne : Nat) := by
  rw [Int.natCast_mul]
  split
  · next hneg => rw [← Int.neg_mul, Int.ofNat_natAbs_of_nonpos (Int.le_of_lt hneg), Int.neg_neg]
  · next hnonneg => rw [Int.natAbs_of_nonneg (Int.not_lt.1 hnonneg)]

/-- **No double is nearer to an integer than the one it is converted to.** -/
theorem ofInt_nearest {n : Int} (hn : n.natAbs < 2 ^ 64) (x : Double) :
    (n * unitsPerOne - (ofInt n).signedUnits).natAbs ≤
      (n * unitsPerOne - x.signedUnits).natAbs := by
  have hfinite := isFinite_ofInt hn
  simp only [isFinite, ofInt, magnitude_nearest, decide_eq_true_eq] at hfinite
  have hnearest := nearestMagnitude_nearest Nat.one_pos hfinite x.magnitude
  rw [signedUnits_ofInt, mul_unitsPerOne_eq, signedUnits, units]
  generalize n.natAbs * unitsPerOne = exact at hnearest ⊢
  -- a double of the other sign is no nearer than one of the same magnitude
  split <;> split <;> omega

/-- **Of two doubles that are the nearest to an integer, the one whose last bit is zero is taken.** -/
theorem ofInt_even {n : Int} (hn : n.natAbs < 2 ^ 64) {x : Double}
    (hne : x.signedUnits ≠ (ofInt n).signedUnits)
    (htie : (n * unitsPerOne - x.signedUnits).natAbs =
      (n * unitsPerOne - (ofInt n).signedUnits).natAbs) : (ofInt n).magnitude % 2 = 0 := by
  have hfinite := isFinite_ofInt hn
  simp only [isFinite, ofInt, magnitude_nearest, decide_eq_true_eq] at hfinite
  have hnearest := nearestMagnitude_nearest Nat.one_pos hfinite x.magnitude
  have hzero := nearestMagnitude_nearest Nat.one_pos hfinite 0
  have hunits : magnitudeUnits 0 = 0 := rfl
  rw [hunits] at hzero
  rw [signedUnits_ofInt, mul_unitsPerOne_eq, signedUnits, units] at htie
  rw [signedUnits_ofInt, signedUnits, units] at hne
  have hmagnitudes : magnitudeUnits x.magnitude ≠
      magnitudeUnits (nearestMagnitude (n.natAbs * unitsPerOne) 1) ∧
        ((n.natAbs * unitsPerOne : Nat) - (1 * magnitudeUnits x.magnitude : Nat) : Int).natAbs =
          ((n.natAbs * unitsPerOne : Nat) - (1 * magnitudeUnits
            (nearestMagnitude (n.natAbs * unitsPerOne) 1) : Nat) : Int).natAbs := by
    generalize n.natAbs * unitsPerOne = exact at hnearest hzero hne htie ⊢
    -- a double of the other sign is as near only if both are zero
    by_cases hneg : n < 0 <;> by_cases hx : x.isNegative = true <;>
      simp only [hneg, hx, Bool.false_eq_true, if_true, if_false] at hne htie <;> omega
  rw [ofInt, magnitude_nearest]
  exact nearestMagnitude_even Nat.one_pos hfinite hmagnitudes.1 hmagnitudes.2

/-- **Integers of up to 53 bits are converted exactly.** -/
theorem ofInt_exact {n : Int} (hn : n.natAbs < 2 ^ 53) :
    (ofInt n).signedUnits = n * unitsPerOne := by
  have hdvd : 2 ^ unitBits ∣ n.natAbs * unitsPerOne := by
    rw [unitsPerOne_eq]
    exact Nat.dvd_mul_left _ _
  have hlt : n.natAbs * unitsPerOne < 2 ^ (unitBits + fractionBits + 1) := by
    rw [Nat.add_assoc, Nat.add_comm, ← two_pow_mul_unitsPerOne]
    exact Nat.mul_lt_mul_of_pos_right hn unitsPerOne_pos
  have hunits := (nearestMagnitude_exact hdvd hlt (by decide)).2
  rw [signedUnits_ofInt, hunits, mul_unitsPerOne_eq]

/-- **Nothing is lost to rounding in a remainder.** In units it is the remainder of the division that
rounds towards zero. -/
theorem signedUnits_rem {x y : Double} (hx : x.isFinite = true) (hy : y.isFinite = true)
    (hne : y.isZero = false) :
    (x.rem y).isFinite = true ∧ (x.rem y).signedUnits = x.signedUnits.tmod y.signedUnits := by
  have hnan : y.isNaN = false := by
    simp only [isNaN, isFinite, decide_eq_true_eq, decide_eq_false_iff_not] at hy ⊢
    omega
  have hrem : x.rem y = nearest x.isNegative (x.units % y.units) 1 := by
    simp [rem, hx, hy, hne, hnan]
  obtain ⟨hfinite, hunits⟩ : nearestMagnitude (x.units % y.units) 1 < infinityMagnitude ∧
      magnitudeUnits (nearestMagnitude (x.units % y.units) 1) = x.units % y.units := by
    simp only [isFinite, decide_eq_true_eq] at hx hy
    obtain ⟨ex, hdvdx, hltx, hex⟩ := exists_two_pow_dvd_magnitudeUnits x.magnitude
    obtain ⟨ey, hdvdy, hlty, hey⟩ := exists_two_pow_dvd_magnitudeUnits y.magnitude
    -- the remainder is on the finer of the two grids, and no larger than either number
    rcases Nat.le_total ex ey with hle | hle
    · refine nearestMagnitude_exact ?_ (Nat.lt_of_le_of_lt (Nat.mod_le _ _) hltx) (hex hx)
      exact (Nat.dvd_mod_iff (Nat.dvd_trans (Nat.pow_dvd_pow 2 hle) hdvdy)).2 hdvdx
    · refine nearestMagnitude_exact ?_ (Nat.lt_trans (Nat.mod_lt _ ?_) hlty) (hey hy)
      · exact (Nat.dvd_mod_iff hdvdy).2 (Nat.dvd_trans (Nat.pow_dvd_pow 2 hle) hdvdx)
      · exact magnitudeUnits_pos (by simpa [isZero] using hne)
  refine ⟨?_, ?_⟩
  · simpa only [hrem, isFinite, magnitude_nearest, decide_eq_true_eq] using hfinite
  · simp only [hrem, signedUnits, isNegative_nearest, units, magnitude_nearest]
    rw [← units, ← units, hunits, Int.ofNat_tmod]
    cases x.isNegative <;> cases y.isNegative <;> simp [Int.neg_tmod, Int.tmod_neg]

end Double

end QuoteLisp.Numeric
