import QuoteLisp.Proofs.IntegerFolds
import QuoteLisp.Proofs.Reduction

/-!
# Numbers of two types

An operation looks at all its operands before it calculates anything. One operand that is no number
spoils the whole list, and one double makes doubles of all integers, wherever it stands. So there are
three kinds of operands (`Operands.ofValues_of_not_number`, `Operands.ofValues_of_numbers`), and the
arithmetic of one type never sees numbers of the other.

What can go wrong afterwards is told by the steps of the fold. Integers fail in a division by zero only.
A fold of doubles fails so exactly when it comes to a step that divides by zero, with finite results up
to there (`Arith.foldlM_onDouble_eq_divZero_iff`).
-/

set_option autoImplicit false

namespace QuoteLisp

open Numeric (Double)

namespace Value

/-- Whether a value is a number. -/
def isNumber : Value → Bool
  | .integer _ | .double _ => true
  | _ => false

/-- An integer as the double nearest to it; other values stay what they are. -/
def promote : Value → Value
  | .integer n => .double (.ofInt n.toInt)
  | v => v

/-- Doubles are told apart by the values that they are. -/
theorem map_double_injective : Function.Injective (List.map Value.double) :=
  List.map_injective_iff.2 fun _ _ heq => Value.double.inj heq

end Value

/-! ### The operands -/

namespace Operands

/-- An argument is refused for being no number, and for nothing else. -/
theorem eq_badNum_of_cons? {v : Value} {operands : Operands} {fault : Fault}
    (h : operands.cons? v = .error fault) : fault = .badNum := by
  unfold cons? at h
  split at h
  · cases h
  · cases h
  · cases h
  · cases h
    rfl

/-- Arguments are refused for having something among them that is no number. -/
theorem eq_badNum_of_ofValues {vs : List Value} {fault : Fault} (h : ofValues vs = .error fault) :
    fault = .badNum := by
  induction vs with
  | nil => cases h
  | cons v vs ih =>
      unfold ofValues at h
      split at h
      · exact eq_badNum_of_cons? h
      · next hvs =>
          cases h
          exact ih hvs

/-- What is no number is refused. -/
theorem cons?_of_not_number {v : Value} (hv : v.isNumber = false) (operands : Operands) :
    operands.cons? v = .error .badNum := by
  cases v with
  | integer n => cases hv
  | double x => cases hv
  | _ => rfl

/-- A value that is no number is found, whatever stands before and after it. -/
theorem ofValues_of_not_number {vs : List Value} {v : Value} (hmem : v ∈ vs)
    (hv : v.isNumber = false) : ofValues vs = .error .badNum := by
  induction vs with
  | nil => cases hmem
  | cons u vs ih =>
      rcases List.mem_cons.1 hmem with rfl | hmem
      · cases hvs : ofValues vs with
        | ok operands => simp only [ofValues, hvs, cons?_of_not_number hv]
        | error fault => simp only [ofValues, hvs, eq_badNum_of_ofValues hvs]
      · simp only [ofValues, ih hmem]

/-- Numbers are all integers, or they are taken as doubles, all of them. -/
theorem ofValues_of_numbers {vs : List Value} (h : ∀ v ∈ vs, v.isNumber = true) :
    (∃ ns : List Int64, vs = ns.map .integer) ∨
      (∃ x, .double x ∈ vs) ∧
        ∃ xs : List Double, vs.map Value.promote = xs.map .double ∧
          ofValues vs = .ok (.doubles xs) := by
  induction vs with
  | nil => exact .inl ⟨[], rfl⟩
  | cons v vs ih =>
      rcases ih fun u hu => h u (List.mem_cons_of_mem _ hu) with
        ⟨ns, rfl⟩ | ⟨⟨x, hx⟩, xs, hxs, hofValues⟩
      · cases v with
        | integer n => exact .inl ⟨n :: ns, rfl⟩
        | double x =>
            refine .inr ⟨⟨x, List.mem_cons_self⟩, x :: ns.map fun n => .ofInt n.toInt, ?_, ?_⟩
            · simp [Value.promote]
            · simp only [ofValues, ofValues_integers, cons?, toDoubles]
        | _ => cases h _ List.mem_cons_self
      · cases v with
        | integer n =>
            refine .inr ⟨⟨x, List.mem_cons_of_mem _ hx⟩, .ofInt n.toInt :: xs, ?_, ?_⟩
            · simp only [List.map_cons, hxs, Value.promote]
            · simp only [ofValues, hofValues, cons?]
        | double y =>
            refine .inr ⟨⟨y, List.mem_cons_self⟩, y :: xs, ?_, ?_⟩
            · simp only [List.map_cons, hxs, Value.promote]
            · simp only [ofValues, hofValues, cons?, toDoubles]
        | _ => cases h _ List.mem_cons_self

/-- Doubles are taken as they are. -/
theorem ofValues_doubles {xs : List Double} (hne : xs ≠ []) :
    ofValues (xs.map .double) = .ok (.doubles xs) := by
  obtain ⟨x, rest, rfl⟩ := List.exists_cons_of_ne_nil hne
  have hnumbers : ∀ v ∈ (x :: rest).map Value.double, v.isNumber = true := by
    intro v hv
    obtain ⟨y, -, rfl⟩ := List.mem_map.1 hv
    rfl
  rcases ofValues_of_numbers hnumbers with ⟨ns, hns⟩ | ⟨-, ys, hys, hofValues⟩
  · cases ns <;> cases hns
  · have hkept : ((x :: rest).map Value.double).map Value.promote = (x :: rest).map .double := by
      rw [List.map_map]
      rfl
    rw [hofValues, Value.map_double_injective (hys.symm.trans hkept)]

end Operands

/-! ### The steps of a fold -/

namespace Arith

variable {op : Arith}

/-- A fold of at least one operand fails where one of its steps does. -/
theorem fold_eq_error_iff {α : Type} {negate : α → α} {combine : α → α → Except Fault α} {x : α}
    {rest : List α} {fault : Fault} :
    op.fold negate combine (x :: rest) = .error fault ↔ rest.foldlM combine x = .error fault := by
  cases rest with
  | nil =>
      constructor
      · intro h
        cases h
      · intro h
        cases h
  | cons y rest => rw [fold_eq_foldlM (.inr (by simp))]

/-- What every failing step of a fold ensures of its fault, a failing fold ensures. -/
theorem of_foldlM_eq_error {α : Type} {P : Fault → Prop} {combine : α → α → Except Fault α}
    (hcombine : ∀ {x y fault}, combine x y = .error fault → P fault) {xs : List α} {x : α}
    {fault : Fault} (h : xs.foldlM combine x = .error fault) : P fault := by
  induction xs generalizing x with
  | nil => cases h
  | cons y ys ih =>
      rw [List.foldlM_cons] at h
      cases hstep : combine x y with
      | error fault' =>
          rw [hstep] at h
          cases h
          exact hcombine hstep
      | ok z =>
          rw [hstep] at h
          exact ih h

/-- An operation on integers fails only for a division by zero. -/
theorem eq_divZero_of_onInt64 {x y : Int64} {fault : Fault} (h : op.onInt64 x y = .error fault) :
    fault = .divZero := by
  cases op <;> simp only [onInt64, powInt64] at h <;> grind

/-- An operation on doubles fails for a division by zero or for a result that is not finite. -/
theorem divZero_or_badNum_of_onDouble {x y : Double} {fault : Fault}
    (h : op.onDouble x y = .error fault) : fault = .divZero ∨ fault = .badNum := by
  unfold onDouble at h
  split at h
  · cases h
    exact .inl rfl
  · dsimp only at h
    split at h
    · cases h
    · cases h
      exact .inr rfl

/-- A step that divides by zero: a quotient or a remainder by zero, or a negative power of zero. -/
def DividesByZero (op : Arith) (x y : Double) : Prop :=
  (op = .div ∨ op = .rem) ∧ y.isZero = true ∨
    op = .pow ∧ x.isZero = true ∧ y.less (.ofInt 0) = true

/-- One operand after the other is taken, always with a finite result. -/
inductive Proceeds (op : Arith) : Double → List Double → Double → Prop where
  | nil (x : Double) : Proceeds op x [] x
  | cons {x y z : Double} {ys : List Double} : (op.rawDouble x y).isFinite = true →
      Proceeds op (op.rawDouble x y) ys z → Proceeds op x (y :: ys) z

/-- The fold comes to a step that divides by zero. -/
def MeetsZero (op : Arith) (x : Double) (ys : List Double) : Prop :=
  ∃ before y after z, ys = before ++ y :: after ∧ op.Proceeds x before z ∧ op.DividesByZero z y

/-- The test for a division by zero decides it. -/
theorem dividesByZero_iff {x y : Double} : op.dividesByZero x y = true ↔ op.DividesByZero x y := by
  cases op <;> simp [dividesByZero, DividesByZero]

/-- A step divides by zero at once or later on, if its own result is finite. -/
theorem meetsZero_cons_iff {x y : Double} {ys : List Double} :
    op.MeetsZero x (y :: ys) ↔
      op.DividesByZero x y ∨
        (op.rawDouble x y).isFinite = true ∧ op.MeetsZero (op.rawDouble x y) ys := by
  constructor
  · rintro ⟨before, w, after, z, heq, hproceeds, hzero⟩
    cases hproceeds with
    | nil =>
        cases heq
        exact .inl hzero
    | cons hfinite hproceeds =>
        cases heq
        exact .inr ⟨hfinite, _, w, after, z, rfl, hproceeds, hzero⟩
  · rintro (hzero | ⟨hfinite, before, w, after, z, rfl, hproceeds, hzero⟩)
    · exact ⟨[], y, ys, x, rfl, .nil x, hzero⟩
    · exact ⟨y :: before, w, after, z, rfl, .cons hfinite hproceeds, hzero⟩

/-- Without further operands nothing is divided by zero. -/
theorem not_meetsZero_nil (x : Double) : ¬ op.MeetsZero x [] := by
  rintro ⟨before, y, after, z, heq, -, -⟩
  cases before <;> cases heq

/-- A fold of doubles fails for a division by zero exactly when it meets one, and all results before
it are finite. -/
theorem foldlM_onDouble_eq_divZero_iff {x : Double} {ys : List Double} :
    ys.foldlM op.onDouble x = .error .divZero ↔ op.MeetsZero x ys := by
  induction ys generalizing x with
  | nil =>
      constructor
      · intro h
        cases h
      · intro h
        exact absurd h (not_meetsZero_nil x)
  | cons y ys ih =>
      rw [List.foldlM_cons, meetsZero_cons_iff, ← dividesByZero_iff, ← ih, onDouble]
      cases op.dividesByZero x y with
      | true =>
          constructor
          · intro _
            exact .inl rfl
          · intro _
            rfl
      | false =>
          cases hfinite : (op.rawDouble x y).isFinite with
          | true => simp [hfinite, bind, Except.bind]
          | false => simp [hfinite, bind, Except.bind]

/-! ### Calls -/

/-- Called in any scope of any heap, an operation has this result for these arguments, and the heap is
left as it is. -/
def Gives (op : Arith) (args : List Value) (r : Value) : Prop :=
  ∀ bound heap scope,
    callBuiltin bound (Builtin.arith op).arity heap scope (.arith op) args = some (r, heap)

variable {args : List Value}

/-- An arithmetic function takes any number of arguments but none. -/
theorem check_arity (op : Arith) (hne : args ≠ []) :
    (Builtin.arith op).arity.check args.length = .ok () := by
  have hpos := List.length_pos_iff.2 hne
  rw [Arity.check_eq_ok_iff]
  simp only [Builtin.arity, Arity.contains, decide_eq_true_eq]
  omega

/-- A call of an arithmetic function gives the number that is computed. -/
theorem gives_of_calculate_ok {v : Value} (hne : args ≠ [])
    (h : Builtin.calculate op args = .ok (.give v)) : op.Gives args v := by
  intro bound heap scope
  simp only [callBuiltin, Reducer.callAs, check_arity op hne, Builtin.perform, h, Reducer.carryOut]

/-- A call of an arithmetic function gives the fault that the computation fails with. -/
theorem gives_of_calculate_error {fault : Fault} (hne : args ≠ [])
    (h : Builtin.calculate op args = .error fault) : op.Gives args (.fault fault) := by
  intro bound heap scope
  simp only [callBuiltin, Reducer.callAs, check_arity op hne, Builtin.perform, h]

/-- Integers give an integer, or a division by zero. -/
theorem exists_gives_of_integers (op : Arith) {ns : List Int64} (hne : ns ≠ []) :
    ∃ r, op.Gives (ns.map .integer) r ∧ ((∃ n, r = .integer n) ∨ r = .fault .divZero) := by
  obtain ⟨n, rest, rfl⟩ := List.exists_cons_of_ne_nil hne
  have hcalculate := Builtin.calculate_integers op (n :: rest)
  cases hfold : op.foldInt64 (n :: rest) with
  | ok m =>
      rw [hfold] at hcalculate
      exact ⟨_, gives_of_calculate_ok (by simp) hcalculate, .inl ⟨m, rfl⟩⟩
  | error fault =>
      rw [hfold] at hcalculate
      have hfault : fault = .divZero := of_foldlM_eq_error
        (P := (· = .divZero)) eq_divZero_of_onInt64 (fold_eq_error_iff.1 hfold)
      exact ⟨_, gives_of_calculate_error (by simp) hcalculate, .inr (by rw [hfault])⟩

/-- Operands that are taken as doubles give a double, or a fault of their fold. -/
theorem exists_gives_of_doubles (op : Arith) (x : Double) (ys : List Double) :
    ∃ r, ((∃ z, r = .double z) ∨ r = .fault .divZero ∨ r = .fault .badNum) ∧
      (r = .fault .divZero ↔ op.MeetsZero x ys) ∧
      ∀ {args : List Value}, args ≠ [] → Operands.ofValues args = .ok (.doubles (x :: ys)) →
        op.Gives args r := by
  have hzero : op.foldDouble (x :: ys) = .error .divZero ↔ op.MeetsZero x ys :=
    fold_eq_error_iff.trans foldlM_onDouble_eq_divZero_iff
  cases hfold : op.foldDouble (x :: ys) with
  | ok z =>
      refine ⟨.double z, .inl ⟨z, rfl⟩, ?_, ?_⟩
      · rw [← hzero, hfold]
        simp
      · intro args hne hargs
        apply gives_of_calculate_ok hne
        simp only [Builtin.calculate, hargs, hfold, Except.map]
  | error fault =>
      have hfault := of_foldlM_eq_error (P := fun fault => fault = .divZero ∨ fault = .badNum)
        divZero_or_badNum_of_onDouble (fold_eq_error_iff.1 hfold)
      refine ⟨.fault fault, .inr (by simpa using hfault), ?_, ?_⟩
      · rw [← hzero, hfold]
        simp
      · intro args hne hargs
        apply gives_of_calculate_error hne
        simp only [Builtin.calculate, hargs, hfold, Except.map]

/-- **Promotion comes before arithmetic, and type errors before both.** Let an operation be called with
at least one argument. If one of them is no number, the result is the fault of a bad number, whatever
the others would give. If all are numbers and one is a double, the result is the same as for the list
with every integer promoted: a double, or the fault of a division by zero or of a bad number. It is a
division by zero exactly when the fold over the promoted operands comes to a step that divides by zero,
all steps before it having finite results. If all are integers, the result is an integer or a division
by zero. -/
theorem promotion_precedes_arithmetic (op : Arith) {args : List Value} (hne : args ≠ []) :
    ((∃ arg ∈ args, arg.isNumber = false) → op.Gives args (.fault .badNum)) ∧
    ((∀ arg ∈ args, arg.isNumber = true) → (∃ x, .double x ∈ args) →
      ∃ x ys r, args.map Value.promote = (x :: ys).map .double ∧ op.Gives args r ∧
        op.Gives (args.map Value.promote) r ∧
        ((∃ z, r = .double z) ∨ r = .fault .divZero ∨ r = .fault .badNum) ∧
        (r = .fault .divZero ↔ op.MeetsZero x ys)) ∧
    ((∀ arg ∈ args, arg.isNumber = true) → (∀ x, .double x ∉ args) →
      ∃ r, op.Gives args r ∧ ((∃ n, r = .integer n) ∨ r = .fault .divZero)) := by
  refine ⟨?_, ?_, ?_⟩
  · rintro ⟨arg, hmem, harg⟩
    apply gives_of_calculate_error hne
    simp only [Builtin.calculate, Operands.ofValues_of_not_number hmem harg]
  · rintro hnumbers ⟨w, hw⟩
    rcases Operands.ofValues_of_numbers hnumbers with ⟨ns, rfl⟩ | ⟨-, xs, hpromote, hofValues⟩
    -- all integers: there is no double among them
    · obtain ⟨n, -, hn⟩ := List.mem_map.1 hw
      cases hn
    · have hxs : xs ≠ [] := by
        rintro rfl
        exact hne (List.map_eq_nil_iff.1 hpromote)
      obtain ⟨x, ys, rfl⟩ := List.exists_cons_of_ne_nil hxs
      -- one result for both calls: it depends on the promoted operands alone
      obtain ⟨r, hkind, hzero, hgives⟩ := exists_gives_of_doubles op x ys
      refine ⟨x, ys, r, hpromote, hgives hne hofValues, ?_, hkind, hzero⟩
      rw [hpromote]
      exact hgives (by simp) (Operands.ofValues_doubles (by simp))
  · intro hnumbers hdouble
    rcases Operands.ofValues_of_numbers hnumbers with ⟨ns, rfl⟩ | ⟨⟨x, hx⟩, -⟩
    · exact exists_gives_of_integers op fun hns => hne (by rw [hns]; rfl)
    · exact absurd hx (hdouble x)

/-- A list behind a quotient by zero is found first. Of three operands one is a double, so that the
last is a zero among doubles; the first remainder is finite, and the next one is by that zero. -/
theorem list_behind_a_quotient_by_zero :
    let mixed : List Value := [.integer 1, .integer 0, .qexpr []]
    let promoted : List Value := [.integer 7, .double ⟨0x4004000000000000⟩, .integer 0]
    let integers : List Value := [.integer 1, .integer 0]
    (mixed ≠ [] ∧ (∃ arg ∈ mixed, arg.isNumber = false) ∧ div.Gives mixed (.fault .badNum)) ∧
    (promoted ≠ [] ∧ (∀ arg ∈ promoted, arg.isNumber = true) ∧ (∃ x, .double x ∈ promoted) ∧
      rem.Gives promoted (.fault .divZero)) ∧
    integers ≠ [] ∧ (∀ arg ∈ integers, arg.isNumber = true) ∧ (∀ x, .double x ∉ integers) ∧
      ∃ r, div.Gives integers r ∧ ((∃ n, r = .integer n) ∨ r = .fault .divZero) := by
  intro mixed promoted integers
  have hmixed : ∃ arg ∈ mixed, arg.isNumber = false := ⟨.qexpr [], by simp [mixed], rfl⟩
  have hnumbers : ∀ arg ∈ promoted, arg.isNumber = true := by simp [promoted, Value.isNumber]
  have hdouble : ∃ x, .double x ∈ promoted := ⟨⟨0x4004000000000000⟩, by simp [promoted]⟩
  have hintegers : ∀ arg ∈ integers, arg.isNumber = true := by simp [integers, Value.isNumber]
  have hnone : ∀ x, .double x ∉ integers := by simp [integers]
  obtain ⟨hbad, -, -⟩ := promotion_precedes_arithmetic div (List.cons_ne_nil _ _ : mixed ≠ [])
  obtain ⟨-, hdoubles, -⟩ :=
    promotion_precedes_arithmetic rem (List.cons_ne_nil _ _ : promoted ≠ [])
  obtain ⟨-, -, hwhole⟩ :=
    promotion_precedes_arithmetic div (List.cons_ne_nil _ _ : integers ≠ [])
  obtain ⟨x, ys, r, hpromote, hgives, -, -, hzero⟩ := hdoubles hnumbers hdouble
  have hoperands : promoted.map Value.promote =
      [.ofInt 7, ⟨0x4004000000000000⟩, .ofInt 0].map Value.double := rfl
  obtain ⟨rfl, rfl⟩ :=
    List.cons.inj (Value.map_double_injective (hoperands.symm.trans hpromote))
  have hmeets : rem.MeetsZero (.ofInt 7) [⟨0x4004000000000000⟩, .ofInt 0] :=
    ⟨[⟨0x4004000000000000⟩], .ofInt 0, [], _, rfl, .cons (by decide +kernel) (.nil _),
      .inl ⟨.inr rfl, by decide +kernel⟩⟩
  obtain rfl := hzero.2 hmeets
  exact ⟨⟨List.cons_ne_nil _ _, hmixed, hbad hmixed⟩,
    ⟨List.cons_ne_nil _ _, hnumbers, hdouble, hgives⟩, List.cons_ne_nil _ _, hintegers, hnone,
    hwhole hintegers hnone⟩

end Arith

end QuoteLisp
