import QuoteLisp.Proofs.Rounding

/-!
# The shortest decimal reads back

`Decimal.shortest` tries one grid of decimals after the other, from the power of ten of the leading
digit on down, and gives up after `gridBound` grids. Whatever it finds on a grid is rounded to the
double it was asked for. It never gives up: every double lies on the grid of `10 ^ -1074`
(`exists_onGrid?_finest`), and the search reaches that grid (`leadingExponentOfUnits_lt`). So the
decimal it gives is always rounded to the double it was made from (`toMagnitude_shortest`).
-/

set_option autoImplicit false

namespace QuoteLisp.Numeric

namespace Decimal

/-! ### One grid -/

/-- A decimal that is found on a grid is rounded to the double it was looked for. -/
theorem toMagnitude_of_onGrid? {m : Nat} {exponent : Int} {d : Decimal}
    (h : onGrid? m exponent = some d) : d.toMagnitude = m := by
  simp only [onGrid?] at h
  split at h
  · next hbelow habove =>
      split at h
      · cases h
        exact beq_iff_eq.1 hbelow
      · cases h
        exact beq_iff_eq.1 habove
  · next hbelow _ =>
      cases h
      exact beq_iff_eq.1 hbelow
  · next _ habove =>
      cases h
      exact beq_iff_eq.1 habove
  · cases h

/-- A grid has a decimal for a double if the one next below is rounded to it. -/
theorem exists_onGrid? {m : Nat} {exponent : Int}
    (h : toMagnitude ⟨(gridBelow (magnitudeUnits m) exponent).1, exponent⟩ = m) :
    ∃ d, onGrid? m exponent = some d := by
  simp only [onGrid?, h, beq_self_eq_true]
  split
  · split
    · exact ⟨_, rfl⟩
    · exact ⟨_, rfl⟩
  · exact ⟨_, rfl⟩
  · next hbelow _ => cases hbelow
  · next hbelow _ => cases hbelow

/-- The exponent of the grid on which every double lies. -/
def finestExponent : Int := -(unitBits : Int)

/-- The exponent of the finest grid is negative, and by as much as one has bits in units. -/
theorem finestExponent_eq : ∃ e, finestExponent = .negSucc e ∧ e + 1 = unitBits :=
  ⟨1073, rfl, rfl⟩

/-- A unit is worth a power of five on the finest grid. -/
theorem ten_pow_unitBits : 10 ^ unitBits = 5 ^ unitBits * unitsPerOne := by
  rw [unitsPerOne_eq, ← Nat.mul_pow]

/-- Every number of units lies on the finest grid. -/
theorem gridBelow_finest (units : Nat) :
    (gridBelow units finestExponent).1 = units * 5 ^ unitBits := by
  obtain ⟨e, hexponent, he⟩ := finestExponent_eq
  rw [hexponent]
  show units * 10 ^ (e + 1) / unitsPerOne = units * 5 ^ unitBits
  rw [he, ten_pow_unitBits, ← Nat.mul_assoc, Nat.mul_div_cancel _ unitsPerOne_pos]

/-- A finite double, written on the finest grid, is rounded to itself. -/
theorem toMagnitude_finest {m : Nat} (hm : m < infinityMagnitude) :
    toMagnitude ⟨magnitudeUnits m * 5 ^ unitBits, finestExponent⟩ = m := by
  rw [toMagnitude_eq_nearestMagnitude]
  obtain ⟨e, hexponent, he⟩ := finestExponent_eq
  rw [hexponent]
  show nearestMagnitude (magnitudeUnits m * 5 ^ unitBits * unitsPerOne) (10 ^ (e + 1)) = m
  rw [he]
  have hpos : 0 < 10 ^ unitBits := Nat.pow_pos (by decide)
  have hcross : magnitudeUnits m * 5 ^ unitBits * unitsPerOne * 1 =
      magnitudeUnits m * 10 ^ unitBits := by
    rw [ten_pow_unitBits, Nat.mul_one, Nat.mul_assoc]
  rw [nearestMagnitude_congr hpos Nat.one_pos hcross, nearestMagnitude_magnitudeUnits hm]

/-- Every double lies on the finest grid. -/
theorem exists_onGrid?_finest {m : Nat} (hm : m < infinityMagnitude) :
    ∃ d, onGrid? m finestExponent = some d := by
  apply exists_onGrid?
  rw [gridBelow_finest, toMagnitude_finest hm]

/-! ### The search -/

/-- A search that starts at or above the finest grid, with enough grids to reach it, finds a decimal
that is rounded to the double. -/
theorem toMagnitude_searchGrids {m : Nat} (hm : m < infinityMagnitude) (fuel : Nat) (exponent : Int)
    (hfrom : finestExponent ≤ exponent) (hto : exponent < finestExponent + fuel) :
    (searchGrids m fuel exponent).toMagnitude = m := by
  induction fuel generalizing exponent with
  | zero => omega
  | succ fuel ih =>
      rw [searchGrids]
      split
      · next d hd => exact toMagnitude_of_onGrid? hd
      · next hnone =>
          -- Nothing is on this grid, so it is not the finest one, and the search goes on.
          have hne : exponent ≠ finestExponent := by
            rintro rfl
            obtain ⟨d, hd⟩ := exists_onGrid?_finest hm
            rw [hnone] at hd
            cases hd
          exact ih (exponent - 1) (by omega) (by omega)

/-- Dropping zeros at the end of the coefficient does not change the double. -/
theorem toMagnitude_trim (fuel : Nat) (d : Decimal) : (trim fuel d).toMagnitude = d.toMagnitude := by
  induction fuel generalizing d with
  | zero => rfl
  | succ fuel ih =>
      rw [trim]
      split
      · next h =>
          obtain ⟨c, exponent⟩ := d
          have hc : c / 10 * 10 = c := Nat.div_mul_cancel (Nat.dvd_of_mod_eq_zero h.2)
          have hten := toMagnitude_mul_ten (c / 10) (exponent + 1)
          rw [hc, Int.add_sub_cancel] at hten
          rw [ih, ← hten]
      · rfl

/-! ### The grids that are tried -/

/-- The leading digit of a double stands on the finest grid or above. -/
theorem finestExponent_le_leadingExponentOfUnits (units : Nat) :
    finestExponent ≤ leadingExponentOfUnits units := by
  simp only [finestExponent, unitBits, leadingExponentOfUnits]
  omega

/-- Every finite double is less than this power of two. -/
def overflowBits : Nat := 1024

/-- Every finite double is less than that power of two. -/
theorem magnitudeUnits_lt {m : Nat} (hm : m < infinityMagnitude) :
    magnitudeUnits m < 2 ^ overflowBits * unitsPerOne := by
  obtain ⟨e, -, hlt, he⟩ := exists_two_pow_dvd_magnitudeUnits m
  have hbits : e + fractionBits + 1 ≤ overflowBits + unitBits := by
    have hshift := he hm
    simp only [maxShift, fractionBits, overflowBits, unitBits] at hshift ⊢
    omega
  rw [two_pow_mul_unitsPerOne]
  exact hlt.trans_le (Nat.pow_le_pow_right Nat.two_pos hbits)

/-- Every finite double has at most so many digits before its point. -/
def overflowDigits : Nat := 320

/-- The bound in bits is within the bound in digits. -/
theorem two_pow_overflowBits_le : 2 ^ overflowBits ≤ 10 ^ overflowDigits := by
  have hbits : overflowBits = 16 * 64 := rfl
  have hdigits : overflowDigits = 5 * 64 := rfl
  rw [hbits, hdigits, Nat.pow_mul, Nat.pow_mul]
  exact Nat.pow_le_pow_left (by decide) 64

/-- A finite double that is scaled by a power of ten has as many digits more before its point. -/
theorem length_toDigits_scaled_le {m : Nat} (hm : m < infinityMagnitude) (digits : Nat) :
    (Nat.toDigits 10 (magnitudeUnits m * Nat.pow 10 digits / unitsPerOne)).length ≤
      overflowDigits + digits := by
  have hpos : 0 < overflowDigits + digits := Nat.add_pos_left (by decide) digits
  rw [Nat.pow_eq, Nat.length_toDigits_le_iff (by decide) hpos, Nat.div_lt_iff_lt_mul unitsPerOne_pos]
  calc magnitudeUnits m * 10 ^ digits
      < 2 ^ overflowBits * unitsPerOne * 10 ^ digits :=
        Nat.mul_lt_mul_of_pos_right (magnitudeUnits_lt hm) (by positivity)
    _ ≤ 10 ^ overflowDigits * unitsPerOne * 10 ^ digits :=
        Nat.mul_le_mul_right _ (Nat.mul_le_mul_right _ two_pow_overflowBits_le)
    _ = 10 ^ (overflowDigits + digits) * unitsPerOne := by
        rw [Nat.pow_add, Nat.mul_right_comm]

/-- The leading digit of a finite double stands low enough for the search to reach the finest
grid. -/
theorem leadingExponentOfUnits_lt {m : Nat} (hm : m < infinityMagnitude) :
    leadingExponentOfUnits (magnitudeUnits m) < finestExponent + gridBound := by
  rw [leadingExponentOfUnits]
  -- The scale is put aside so that nothing computes the power.
  generalize hscale : 324 = scale
  have hlength := length_toDigits_scaled_le hm scale
  simp only [overflowDigits, finestExponent, unitBits, gridBound] at hlength ⊢
  omega

/-- The shortest decimal of a finite double is rounded to it. -/
theorem toMagnitude_shortest {m : Nat} (hm : m < infinityMagnitude) :
    (shortest m).toMagnitude = m := by
  rw [shortest, toMagnitude_trim]
  exact toMagnitude_searchGrids hm gridBound _ (finestExponent_le_leadingExponentOfUnits _)
    (leadingExponentOfUnits_lt hm)

end Decimal

end QuoteLisp.Numeric
