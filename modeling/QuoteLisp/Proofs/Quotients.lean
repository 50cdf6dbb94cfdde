import QuoteLisp.Proofs.IntegerFolds

/-!
# Quotients and remainders of integers

A quotient is truncated toward zero, and a remainder has the sign of the dividend. Of all quotients of
64-bit integers a single one is out of range, that of the least integer by minus one, and it wraps
around to the least integer again; no remainder ever does. So a quotient and a remainder together give
the dividend back, if only modulo 2^64 (`div_mul_add_rem`).

Over a list of divisors a fold either meets a zero and fails, or divides step by step
(`Divides.foldlM`). As truncated quotients by one divisor after the other are those by the product of
the divisors (`tdiv_tdiv`), and a dividend that is not the least integer has no quotient that wraps
around, the fold gives the quotient by the exact product, even where that product is far out of range.
-/

set_option autoImplicit false

namespace QuoteLisp

namespace Arith

/-! ### One divisor -/

/-- A quotient is the residue of the exact quotient, rounded towards zero. -/
theorem div_eq_ofInt (x y : Int64) : x / y = Int64.ofInt (x.toInt.tdiv y.toInt) := by
  rw [← Int64.toInt_inj, Int64.toInt_div, Int64.toInt_ofInt]

/-- A remainder is that of the division which rounds towards zero. -/
theorem rem_eq_ofInt (x y : Int64) : x % y = Int64.ofInt (x.toInt.tmod y.toInt) := by
  rw [← Int64.toInt_mod, Int64.ofInt_toInt]

/-- Quotient times divisor and remainder make up the dividend, modulo `2 ^ 64`. -/
theorem div_mul_add_rem (x y : Int64) : x / y * y + x % y = x := by
  have hy : y = Int64.ofInt y.toInt := (Int64.ofInt_toInt y).symm
  calc x / y * y + x % y
      = Int64.ofInt (x.toInt.tdiv y.toInt) * Int64.ofInt y.toInt +
          Int64.ofInt (x.toInt.tmod y.toInt) := by rw [div_eq_ofInt, rem_eq_ofInt, ← hy]
    _ = Int64.ofInt (x.toInt.tdiv y.toInt * y.toInt + x.toInt.tmod y.toInt) := by
          rw [Int64.ofInt_add, Int64.ofInt_mul]
    _ = x := by rw [Int.tdiv_mul_add_tmod, Int64.ofInt_toInt]

/-- A quotient is exact, except for the one that is out of range. -/
theorem toInt_div_or_wraps (x y : Int64) :
    (x / y).toInt = x.toInt.tdiv y.toInt ∨ x = .minValue ∧ y = -1 ∧ x / y = .minValue := by
  by_cases hx : x = .minValue
  · by_cases hy : y = -1
    · subst hx hy
      exact .inr ⟨rfl, rfl, by decide⟩
    · exact .inl (Int64.toInt_div_of_ne_right x y hy)
  · exact .inl (Int64.toInt_div_of_ne_left x y hx)

/-- A remainder is smaller than its divisor, signs aside. -/
theorem natAbs_rem_lt {x y : Int64} (hy : y ≠ 0) :
    (x % y).toInt.natAbs < y.toInt.natAbs := by
  have hzero : y.toInt ≠ 0 := fun heq => hy (Int64.toInt_inj.1 heq)
  rw [Int64.toInt_mod, Int.natAbs_tmod]
  exact Nat.mod_lt _ (Int.natAbs_pos.2 hzero)

/-- A remainder is zero or has the sign of the dividend. -/
theorem rem_eq_zero_or_sign (x y : Int64) :
    x % y = 0 ∨ (x % y).toInt.sign = x.toInt.sign := by
  have hsign := Int.sign_tmod x.toInt y.toInt
  rw [← Int64.toInt_mod] at hsign
  split at hsign
  · exact .inl (Int64.toInt_inj.1 (Int.sign_eq_zero_iff_zero.1 hsign))
  · exact .inr hsign

/-! ### Several divisors -/

/-- An operation that divides fails for the divisor zero, and for no other. -/
def Divides (op : Arith) (quotient : Int64 → Int64 → Int64) : Prop :=
  ∀ x y, op.onInt64 x y = if y = 0 then .error .divZero else .ok (quotient x y)

/-- A quotient fails for the divisor zero only. -/
theorem divides_div : Divides .div (· / ·) := fun _ _ => rfl

/-- A remainder fails for the divisor zero only. -/
theorem divides_rem : Divides .rem (· % ·) := fun _ _ => rfl

/-- A zero anywhere among the divisors ends the fold. -/
theorem Divides.foldlM {op : Arith} {quotient : Int64 → Int64 → Int64} (h : op.Divides quotient)
    (bs : List Int64) (a : Int64) :
    bs.foldlM op.onInt64 a =
      if 0 ∈ bs then .error .divZero else .ok (bs.foldl quotient a) := by
  induction bs generalizing a with
  | nil => rfl
  | cons b bs ih =>
      rw [List.foldlM_cons, h a b]
      by_cases hb : b = 0
      · rw [if_pos hb, hb, if_pos List.mem_cons_self]
        rfl
      · have hmem : 0 ∈ b :: bs ↔ 0 ∈ bs := by
          rw [List.mem_cons, or_iff_right (Ne.symm hb)]
        simp only [if_neg hb, hmem]
        exact ih (quotient a b)

/-- A division by several divisors fails when one of them is zero, and else divides by one after the
other. -/
theorem Divides.calculate_eq {op : Arith} {quotient : Int64 → Int64 → Int64}
    (h : op.Divides quotient) (hop : op ≠ .sub) (a : Int64) (bs : List Int64) :
    Builtin.calculate op ((a :: bs).map .integer) =
      if 0 ∈ bs then .error .divZero else .ok (.give (.integer (bs.foldl quotient a))) := by
  rw [Builtin.calculate_integers, foldInt64_eq_foldlM (.inl hop), h.foldlM]
  split <;> rfl

/-- A division by several divisors other than zero yields what dividing by one after the other comes
to. -/
theorem Divides.yields {op : Arith} {quotient : Int64 → Int64 → Int64} (h : op.Divides quotient)
    (hop : op ≠ .sub) {a : Int64} {bs : List Int64} (hbs : 0 ∉ bs) :
    op.Yields (a :: bs) (bs.foldl quotient a) := by
  rw [Yields, h.calculate_eq hop, if_neg hbs]

/-- Quotients by one divisor after the other are those by their product. -/
theorem tdiv_tdiv (a b c : Int) : (a.tdiv b).tdiv c = a.tdiv (b * c) := by
  -- Signs can be moved outside, and what is left is the law for natural numbers.
  obtain ⟨l, rfl | rfl⟩ := a.eq_nat_or_neg <;> obtain ⟨m, rfl | rfl⟩ := b.eq_nat_or_neg <;>
    obtain ⟨n, rfl | rfl⟩ := c.eq_nat_or_neg <;>
    simp only [Int.neg_tdiv, Int.tdiv_neg, Int.neg_mul, Int.mul_neg, Int.neg_neg, ← Int.ofNat_tdiv,
      ← Int.natCast_mul, Nat.div_div_eq_div_mul]

/-- No other integer has the least one as a quotient. -/
theorem div_ne_minValue {a : Int64} (ha : a ≠ .minValue) (b : Int64) : a / b ≠ .minValue := by
  intro heq
  have hquotient := Int64.toInt_div_of_ne_left a b ha
  have hsize := Int.natAbs_tdiv_le_natAbs a.toInt b.toInt
  have hmin : a.toInt ≠ Int64.minValue.toInt := fun h => ha (Int64.toInt_inj.1 h)
  have hlow := a.le_toInt
  have hhigh := a.toInt_lt
  rw [heq] at hquotient
  rw [← hquotient] at hsize
  rw [Int64.toInt_minValue] at hsize hmin
  omega

/-- A fold of quotients is the quotient by the exact product. -/
theorem toInt_foldl_div {a : Int64} (ha : a ≠ .minValue) (bs : List Int64) :
    (bs.foldl (· / ·) a).toInt = a.toInt.tdiv (bs.map Int64.toInt).prod := by
  induction bs generalizing a with
  | nil => rw [List.foldl_nil, List.map_nil, List.prod_nil, Int.tdiv_one]
  | cons b bs ih =>
      rw [List.foldl_cons, ih (div_ne_minValue ha b), Int64.toInt_div_of_ne_left a b ha, tdiv_tdiv,
        List.map_cons, List.prod_cons]

/-- Repeated remainders are exact: nothing wraps around. -/
theorem toInt_foldl_rem (bs : List Int64) (a : Int64) :
    (bs.foldl (· % ·) a).toInt = bs.foldl (fun r b => r.tmod b.toInt) a.toInt := by
  induction bs generalizing a with
  | nil => rfl
  | cons b bs ih => rw [List.foldl_cons, List.foldl_cons, ih, Int64.toInt_mod]

/-- **Division of integers at all limits.** The quotient and the remainder by a divisor other than zero
give the dividend back, as product and sum that wrap around; the remainder is smaller in size than the
divisor, and is zero or has the sign of the dividend; and the quotient is exact unless the least integer
is divided by minus one, which gives the least integer. Over a list of divisors quotients and remainders
fail, as a division by zero, if zero is among them. Otherwise they have results: quotients that are each
the exact one, taken into range, and remainders that are all exact. If the dividend is not the least
integer, the result of all quotients is the exact quotient by the exact product of the divisors,
truncated toward zero. -/
theorem integer_division_at_all_limits :
    (∀ {x y : Int64}, y ≠ 0 →
      ∃ q r p, div.Yields [x, y] q ∧ rem.Yields [x, y] r ∧ mul.Yields [q, y] p ∧
        add.Yields [p, r] x ∧ r.toInt.natAbs < y.toInt.natAbs ∧
        (r = 0 ∨ r.toInt.sign = x.toInt.sign) ∧
        (q.toInt = x.toInt.tdiv y.toInt ∨ x = .minValue ∧ y = -1 ∧ q = .minValue)) ∧
    ∀ (a : Int64) (bs : List Int64),
      (0 ∈ bs → Builtin.calculate div ((a :: bs).map .integer) = .error .divZero ∧
        Builtin.calculate rem ((a :: bs).map .integer) = .error .divZero) ∧
      (0 ∉ bs → ∃ q r, div.Yields (a :: bs) q ∧ rem.Yields (a :: bs) r ∧
        q = bs.foldl (fun q b => Int64.ofInt (q.toInt.tdiv b.toInt)) a ∧
        r.toInt = bs.foldl (fun r b => r.tmod b.toInt) a.toInt ∧
        (a ≠ .minValue → q.toInt = a.toInt.tdiv (bs.map Int64.toInt).prod)) := by
  constructor
  · intro x y hy
    have hdivisors : 0 ∉ [y] := fun hmem => hy (List.mem_singleton.1 hmem).symm
    have hsum : add.Yields [x / y * y, x % y] (x / y * y + x % y) := yields_of_foldInt64 rfl
    rw [div_mul_add_rem] at hsum
    exact ⟨x / y, x % y, x / y * y, divides_div.yields (by decide) hdivisors,
      divides_rem.yields (by decide) hdivisors, yields_of_foldInt64 rfl, hsum, natAbs_rem_lt hy,
      rem_eq_zero_or_sign x y, toInt_div_or_wraps x y⟩
  · intro a bs
    constructor
    · intro hzero
      rw [divides_div.calculate_eq (by decide), divides_rem.calculate_eq (by decide), if_pos hzero,
        if_pos hzero]
      exact ⟨rfl, rfl⟩
    · intro hzero
      have hsteps : (fun q b : Int64 => q / b) =
          fun q b => Int64.ofInt (q.toInt.tdiv b.toInt) := by
        funext q b
        exact div_eq_ofInt q b
      exact ⟨bs.foldl (· / ·) a, bs.foldl (· % ·) a, divides_div.yields (by decide) hzero,
        divides_rem.yields (by decide) hzero, by rw [hsteps], toInt_foldl_rem bs a,
        fun ha => toInt_foldl_div ha bs⟩

/-- The quotient that wraps around and the remainder beside it still give the least integer back. A zero
is met behind another divisor. The product of three and the divisor after it is one modulo 2^64; but
the quotient is that by the exact product, which exceeds the dividend by far. -/
theorem divisors_at_the_limits :
    (-1 : Int64) ≠ 0 ∧ div.Yields [.minValue, -1] .minValue ∧ rem.Yields [.minValue, -1] 0 ∧
      (∃ p, mul.Yields [.minValue, -1] p ∧ add.Yields [p, 0] .minValue) ∧
      (0 : Int64) ∈ [3, 0, 7] ∧
      Builtin.calculate rem ([1, 3, 0, 7].map .integer) = .error .divZero ∧
      (0 : Int64) ∉ [3, -6148914691236517205] ∧ (100 : Int64) ≠ .minValue ∧
      div.Yields [100, 3, -6148914691236517205] 0 := by
  have hminus : (-1 : Int64) ≠ 0 := by decide
  have hmem : (0 : Int64) ∈ [3, 0, 7] := by decide
  have hnot : (0 : Int64) ∉ [3, -6148914691236517205] := by decide
  have hleast : (100 : Int64) ≠ .minValue := by decide
  obtain ⟨hone, hseveral⟩ := integer_division_at_all_limits
  obtain ⟨q, r, p, hq, hr, hp, hsum, hsize, -, hexact⟩ := @hone .minValue (-1) hminus
  obtain rfl : q = .minValue := by
    rcases hexact with hexact | ⟨-, -, hwraps⟩
    · have hout : Int64.minValue.toInt.tdiv (-1 : Int64).toInt = 2 ^ 63 := by decide
      exact absurd (hexact.trans hout) (Int.ne_of_lt q.toInt_lt)
    · exact hwraps
  obtain rfl : r = 0 := by
    have hsmall : r.toInt.natAbs < 1 := hsize
    exact Int64.toInt_inj.1 (Int.natAbs_eq_zero.1 (Nat.lt_one_iff.1 hsmall))
  obtain ⟨q', -, hq', -, -, -, hproduct⟩ := (hseveral 100 [3, -6148914691236517205]).2 hnot
  obtain rfl : q' = 0 := Int64.toInt_inj.1 (hproduct hleast)
  exact ⟨hminus, hq, hr, ⟨p, hp, hsum⟩, hmem, ((hseveral 1 [3, 0, 7]).1 hmem).2, hnot, hleast, hq'⟩

end Arith

end QuoteLisp
