import Mathlib.Algebra.BigOperators.Group.List.Basic
import Mathlib.Algebra.Ring.Int.Defs
import QuoteLisp.Builtin.Effect

/-!
# Operations on lists of integers

A list of integers is folded from the left, and each step of a sum, a difference or a product wraps
around. `Wraps` says of such an operation what its exact counterpart is, step by step and for all
remaining operands at once; then wrapping at every step is the same as wrapping once in the end
(`Wraps.foldlM`). The least and the greatest operand are selected step by step (`Selects`), and the one
that is left at the end comes before all others (`Selects.exists_foldlM`).

What these operations give is thereby told by sums, products and orders, none of which depend on how the
operands are arranged.
-/

set_option autoImplicit false

namespace QuoteLisp

/-- Integers are taken as integers. -/
theorem Operands.ofValues_integers (xs : List Int64) :
    ofValues (xs.map .integer) = .ok (.integers xs) := by
  induction xs with
  | nil => rfl
  | cons x xs ih => simp only [List.map_cons, ofValues, ih, cons?]

/-- An arithmetic function on integers folds them as integers. -/
theorem Builtin.calculate_integers (op : Arith) (xs : List Int64) :
    calculate op (xs.map .integer) = (op.foldInt64 xs).map fun n => .give (.integer n) := by
  rw [calculate, Operands.ofValues_integers]

namespace Arith

/-- An operation gives an integer for these integers. -/
def Yields (op : Arith) (xs : List Int64) (n : Int64) : Prop :=
  Builtin.calculate op (xs.map .integer) = .ok (.give (.integer n))

/-- What the fold of some integers gives, the operation yields. -/
theorem yields_of_foldInt64 {op : Arith} {xs : List Int64} {n : Int64}
    (h : op.foldInt64 xs = .ok n) : op.Yields xs n := by
  rw [Yields, Builtin.calculate_integers, h]
  rfl

/-- Lists that yield the same number are computed to the same. -/
theorem Yields.calculate_eq {op : Arith} {xs ys : List Int64} {n : Int64} (h : op.Yields xs n)
    (h' : op.Yields ys n) :
    Builtin.calculate op (xs.map .integer) = Builtin.calculate op (ys.map .integer) :=
  h.trans h'.symm

/-- A fold begins with its first operand, and goes on with the others. Only a lone operand of a
difference is not left as it is. -/
theorem fold_eq_foldlM {α : Type} {op : Arith} {negate : α → α} {combine : α → α → Except Fault α}
    {a : α} {rest : List α} (h : op ≠ .sub ∨ rest ≠ []) :
    op.fold negate combine (a :: rest) = rest.foldlM combine a := by
  cases rest with
  | nil =>
      have hop : op ≠ .sub := h.resolve_right fun hrest => hrest rfl
      rw [fold, if_neg hop]
      rfl
  | cons b rest => rfl

/-- A fold goes from left to right, but for a difference of one operand. -/
theorem foldInt64_eq_foldlM {op : Arith} {a : Int64} {rest : List Int64}
    (h : op ≠ .sub ∨ rest ≠ []) : op.foldInt64 (a :: rest) = rest.foldlM op.onInt64 a :=
  fold_eq_foldlM h

/-! ### Sums, differences and products -/

/-- An operation that never fails and wraps around. Its exact counterpart takes several operands, one
after the other, as it takes the total of them. -/
structure Wraps (op : Arith) (exact : Int → Int → Int) (total : List Int → Int) : Prop where
  onInt64_ofInt : ∀ m n,
    op.onInt64 (Int64.ofInt m) (Int64.ofInt n) = .ok (Int64.ofInt (exact m n))
  nil : ∀ m, exact m (total []) = m
  cons : ∀ m n ns, exact m (total (n :: ns)) = exact (exact m n) (total ns)

/-- A sum wraps around its exact sum. -/
theorem wraps_add : Wraps .add (· + ·) List.sum where
  onInt64_ofInt m n := by rw [onInt64, Int64.ofInt_add]
  nil m := by rw [List.sum_nil, add_zero]
  cons m n ns := by rw [List.sum_cons, add_assoc]

/-- A difference wraps around its exact difference. -/
theorem wraps_sub : Wraps .sub (· - ·) List.sum where
  onInt64_ofInt m n := by rw [onInt64, Int64.ofInt_sub]
  nil m := by rw [List.sum_nil, sub_zero]
  cons m n ns := by rw [List.sum_cons, sub_add_eq_sub_sub]

/-- A product wraps around its exact product. -/
theorem wraps_mul : Wraps .mul (· * ·) List.prod where
  onInt64_ofInt m n := by rw [onInt64, Int64.ofInt_mul]
  nil m := by rw [List.prod_nil, mul_one]
  cons m n ns := by rw [List.prod_cons, mul_assoc]

/-- Wrapping around at every step leaves what wrapping once in the end leaves. -/
theorem Wraps.foldlM {op : Arith} {exact : Int → Int → Int} {total : List Int → Int}
    (h : op.Wraps exact total) (xs : List Int64) (m : Int) :
    xs.foldlM op.onInt64 (Int64.ofInt m) =
      .ok (Int64.ofInt (exact m (total (xs.map Int64.toInt)))) := by
  induction xs generalizing m with
  | nil =>
      rw [List.map_nil, h.nil]
      rfl
  | cons x xs ih =>
      -- The accumulator is the residue of the exact one, whether that is in range or not.
      have hstep := h.onInt64_ofInt m x.toInt
      rw [Int64.ofInt_toInt] at hstep
      rw [List.foldlM_cons, hstep, List.map_cons, h.cons]
      exact ih (exact m x.toInt)

/-- An operation that wraps around yields the residue of its exact result. -/
theorem Wraps.yields {op : Arith} {exact : Int → Int → Int} {total : List Int → Int}
    (h : op.Wraps exact total) {a : Int64} {rest : List Int64} (hfold : op ≠ .sub ∨ rest ≠ []) :
    op.Yields (a :: rest) (Int64.ofInt (exact a.toInt (total (rest.map Int64.toInt)))) := by
  apply yields_of_foldInt64
  rw [foldInt64_eq_foldlM hfold]
  have hfoldlM := h.foldlM rest a.toInt
  rwa [Int64.ofInt_toInt] at hfoldlM

/-- A sum is the residue of the exact sum. -/
theorem yields_add (a : Int64) (rest : List Int64) :
    add.Yields (a :: rest) (Int64.ofInt ((a :: rest).map Int64.toInt).sum) := by
  rw [List.map_cons, List.sum_cons]
  exact wraps_add.yields (.inl (by decide))

/-- A product is the residue of the exact product. -/
theorem yields_mul (a : Int64) (rest : List Int64) :
    mul.Yields (a :: rest) (Int64.ofInt ((a :: rest).map Int64.toInt).prod) := by
  rw [List.map_cons, List.prod_cons]
  exact wraps_mul.yields (.inl (by decide))

/-- A lone operand is negated, and from the first of several all others are subtracted. -/
theorem yields_sub (a : Int64) (rest : List Int64) :
    sub.Yields (a :: rest)
      (Int64.ofInt (if rest = [] then -a.toInt else a.toInt - (rest.map Int64.toInt).sum)) := by
  by_cases hrest : rest = []
  · rw [if_pos hrest, hrest, Int64.ofInt_neg, Int64.ofInt_toInt]
    exact yields_of_foldInt64 rfl
  · rw [if_neg hrest]
    exact wraps_sub.yields (.inr hrest)

/-! ### Least and greatest operands -/

/-- An operation that gives that one of two operands which comes first in an order. -/
structure Selects (op : Arith) (before : Int64 → Int64 → Prop) : Prop where
  refl : ∀ x, before x x
  trans : ∀ {x y z}, before x y → before y z → before x z
  antisymm : ∀ {x y}, before x y → before y x → x = y
  exists_onInt64 : ∀ x y, ∃ z, op.onInt64 x y = .ok z ∧ (z = x ∨ z = y) ∧ before z x ∧ before z y

/-- The lesser of two integers is selected by `min`. -/
theorem selects_min : Selects .min (· ≤ ·) where
  refl := Int64.le_refl
  trans := Int64.le_trans
  antisymm := Int64.le_antisymm
  exists_onInt64 x y := by
    by_cases hlt : y < x
    · exact ⟨y, by rw [onInt64, if_pos hlt], .inr rfl, Int64.le_of_lt hlt, Int64.le_refl y⟩
    · exact ⟨x, by rw [onInt64, if_neg hlt], .inl rfl, Int64.le_refl x, Int64.not_lt.1 hlt⟩

/-- The greater of two integers is selected by `max`. -/
theorem selects_max : Selects .max (fun x y => y ≤ x) where
  refl := Int64.le_refl
  trans hxy hyz := Int64.le_trans hyz hxy
  antisymm hxy hyx := Int64.le_antisymm hyx hxy
  exists_onInt64 x y := by
    by_cases hlt : x < y
    · exact ⟨y, by rw [onInt64, if_pos hlt], .inr rfl, Int64.le_of_lt hlt, Int64.le_refl y⟩
    · exact ⟨x, by rw [onInt64, if_neg hlt], .inl rfl, Int64.le_refl x, Int64.not_lt.1 hlt⟩

/-- What is selected in the end is one of the operands and comes before all of them. -/
theorem Selects.exists_foldlM {op : Arith} {before : Int64 → Int64 → Prop}
    (h : op.Selects before) (xs : List Int64) (x : Int64) :
    ∃ m ∈ x :: xs, xs.foldlM op.onInt64 x = .ok m ∧ ∀ y ∈ x :: xs, before m y := by
  induction xs generalizing x with
  | nil =>
      refine ⟨x, List.mem_cons_self, rfl, ?_⟩
      intro y hy
      rw [List.mem_singleton.1 hy]
      exact h.refl x
  | cons y xs ih =>
      -- The one that is selected of the first two stands for both of them from here on.
      obtain ⟨z, hz, hmem, hzx, hzy⟩ := h.exists_onInt64 x y
      obtain ⟨m, hm, hfold, hbefore⟩ := ih z
      have hmz := hbefore z List.mem_cons_self
      refine ⟨m, ?_, ?_, ?_⟩
      · rcases List.mem_cons.1 hm with rfl | hm
        · rcases hmem with rfl | rfl
          · exact List.mem_cons_self
          · exact List.mem_cons_of_mem _ List.mem_cons_self
        · exact List.mem_cons_of_mem _ (List.mem_cons_of_mem _ hm)
      · rw [List.foldlM_cons, hz]
        exact hfold
      · intro w hw
        rcases List.mem_cons.1 hw with rfl | hw
        · exact h.trans hmz hzx
        · rcases List.mem_cons.1 hw with rfl | hw
          · exact h.trans hmz hzy
          · exact hbefore w (List.mem_cons_of_mem _ hw)

/-- A selection of some operands yields one of them, and none is before it. -/
theorem Selects.exists_yields {op : Arith} {before : Int64 → Int64 → Prop} (h : op.Selects before)
    (hop : op ≠ .sub) (a : Int64) (rest : List Int64) :
    ∃ m ∈ a :: rest, op.Yields (a :: rest) m ∧ ∀ x ∈ a :: rest, before m x := by
  obtain ⟨m, hm, hfold, hbefore⟩ := h.exists_foldlM rest a
  refine ⟨m, hm, ?_, hbefore⟩
  apply yields_of_foldInt64
  rw [foldInt64_eq_foldlM (.inl hop), hfold]

/-! ### Operands in another order -/

/-- An operation whose results for lists that are not empty do not depend on how they are arranged. -/
def IgnoresOrder (op : Arith) : Prop :=
  ∀ {a b : Int64} {as bs : List Int64}, (a :: as).Perm (b :: bs) →
    Builtin.calculate op ((a :: as).map .integer) = Builtin.calculate op ((b :: bs).map .integer)

/-- A residue of a total that does not depend on the order of its terms does not depend on it either. -/
theorem ignoresOrder_of_total {op : Arith} {total : List Int → Int}
    (hyields : ∀ a rest, op.Yields (a :: rest) (Int64.ofInt (total ((a :: rest).map Int64.toInt))))
    (htotal : ∀ {ms ns : List Int}, ms.Perm ns → total ms = total ns) : op.IgnoresOrder := by
  intro a b as bs hperm
  have heq := htotal (hperm.map Int64.toInt)
  exact (hyields a as).calculate_eq (heq ▸ hyields b bs)

/-- A selection does not depend on the order of its operands. -/
theorem Selects.ignoresOrder {op : Arith} {before : Int64 → Int64 → Prop} (h : op.Selects before)
    (hop : op ≠ .sub) : op.IgnoresOrder := by
  intro a b as bs hperm
  obtain ⟨m, hm, hyields, hbefore⟩ := h.exists_yields hop a as
  obtain ⟨m', hm', hyields', hbefore'⟩ := h.exists_yields hop b bs
  obtain rfl : m = m' :=
    h.antisymm (hbefore m' (hperm.mem_iff.2 hm')) (hbefore' m (hperm.mem_iff.1 hm))
  exact hyields.calculate_eq hyields'

/-- Sum, product, least and greatest do not depend on the order of their operands. -/
theorem ignoresOrder_of_mem {op : Arith} (h : op ∈ [add, mul, min, max]) : op.IgnoresOrder := by
  simp only [List.mem_cons, List.not_mem_nil, or_false] at h
  rcases h with rfl | rfl | rfl | rfl
  · exact ignoresOrder_of_total yields_add List.Perm.sum_eq
  · exact ignoresOrder_of_total yields_mul List.Perm.prod_eq
  · exact selects_min.ignoresOrder (by decide)
  · exact selects_max.ignoresOrder (by decide)

/-- A difference does not depend on the order of the operands after the first. -/
theorem calculate_sub_of_perm {a : Int64} {rest others : List Int64} (hperm : rest.Perm others) :
    Builtin.calculate sub ((a :: rest).map .integer) =
      Builtin.calculate sub ((a :: others).map .integer) := by
  have hnil : rest = [] ↔ others = [] := by
    rw [← List.length_eq_zero_iff, ← List.length_eq_zero_iff, hperm.length_eq]
  have hsum : (rest.map Int64.toInt).sum = (others.map Int64.toInt).sum :=
    (hperm.map Int64.toInt).sum_eq
  have hothers := yields_sub a others
  simp only [← hsum, ← hnil] at hothers
  exact (yields_sub a rest).calculate_eq hothers

/-- **Operations on integers wrap around as if once, and the order of operands matters only where it
has to.** For every list of integers that is not empty, a sum is the residue of the exact sum and a
product that of the exact product; a difference is the residue of the negation of a lone operand, or of
the first operand less the exact sum of the others; and the minimum and the maximum are operands with
no operand below and none above them. So none of these ever fails. Sums, products, minima and maxima stay
the same if the operands are put in another order, and differences if those after the first are. -/
theorem integer_folds_are_residues (a : Int64) (rest : List Int64) :
    add.Yields (a :: rest) (Int64.ofInt ((a :: rest).map Int64.toInt).sum) ∧
    mul.Yields (a :: rest) (Int64.ofInt ((a :: rest).map Int64.toInt).prod) ∧
    sub.Yields (a :: rest)
      (Int64.ofInt (if rest = [] then -a.toInt else a.toInt - (rest.map Int64.toInt).sum)) ∧
    (∃ m ∈ a :: rest, min.Yields (a :: rest) m ∧ ∀ x ∈ a :: rest, m ≤ x) ∧
    (∃ m ∈ a :: rest, max.Yields (a :: rest) m ∧ ∀ x ∈ a :: rest, x ≤ m) ∧
    (∀ op ∈ [add, mul, min, max], ∀ {xs : List Int64}, (a :: rest).Perm xs →
      Builtin.calculate op ((a :: rest).map .integer) = Builtin.calculate op (xs.map .integer)) ∧
    ∀ {others : List Int64}, rest.Perm others →
      Builtin.calculate sub ((a :: rest).map .integer) =
        Builtin.calculate sub ((a :: others).map .integer) := by
  refine ⟨yields_add a rest, yields_mul a rest, yields_sub a rest,
    selects_min.exists_yields (by decide) a rest, selects_max.exists_yields (by decide) a rest,
    ?_, calculate_sub_of_perm⟩
  intro op hop xs hperm
  cases xs with
  | nil => exact absurd hperm.eq_nil (List.cons_ne_nil a rest)
  | cons b bs => exact ignoresOrder_of_mem hop hperm

/-- Several steps of a sum and of a difference wrap around one way and the other. The negation of the
least integer is itself. -/
theorem largest_integer_with_others :
    add.Yields [.maxValue, 1, -5] 9223372036854775803 ∧
      sub.Yields [.maxValue, 1, -5] (-9223372036854775805) ∧
      sub.Yields [.minValue] .minValue ∧
      [Int64.maxValue, 1, -5].Perm [-5, .maxValue, 1] ∧
      mul.Yields [-5, .maxValue, 1] (-9223372036854775803) ∧
      [(1 : Int64), -5].Perm [-5, 1] ∧
      sub.Yields [.maxValue, -5, 1] (-9223372036854775805) := by
  obtain ⟨hadd, hmul, hsub, -, -, hperm, hothers⟩ := integer_folds_are_residues .maxValue [1, -5]
  obtain ⟨-, -, hnegated, -⟩ := integer_folds_are_residues .minValue []
  have harranged : [Int64.maxValue, 1, -5].Perm [-5, .maxValue, 1] := by decide
  have hswapped : [(1 : Int64), -5].Perm [-5, 1] := by decide
  exact ⟨hadd, hsub, hnegated, harranged, (hperm mul (by decide) harranged).symm.trans hmul,
    hswapped, (hothers hswapped).symm.trans hsub⟩

end Arith

end QuoteLisp
