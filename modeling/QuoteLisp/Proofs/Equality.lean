import QuoteLisp.Proofs.Parts

/-!
# Equality of values

Two values are equal when they are made alike, down to equal numbers: lists item by item, lambdas by
their parameters, their bodies and the scope they close over. What a value is equal to is told by its
constructor (`Value.equal_sexpr_iff` and its neighbours), so that what holds of numbers is handed on
from the items to the list and from the body to the lambda. The two zeros are equal doubles, and a NaN
is equal to nothing; hence equality is symmetric and transitive, and a value is equal to itself unless
there is a NaN in it.
-/

set_option autoImplicit false

namespace QuoteLisp

namespace Numeric.Double

variable {x y z : Double}

/-- Doubles are equal when both are numbers and at the same place in the order. -/
theorem equal_iff :
    x.equal y = true ↔ x.isNaN = false ∧ y.isNaN = false ∧ x.orderKey = y.orderKey := by
  simp [equal, and_assoc]

/-- Equality of doubles is symmetric. -/
theorem equal_symm (h : x.equal y = true) : y.equal x = true := by
  obtain ⟨hx, hy, hkey⟩ := equal_iff.1 h
  exact equal_iff.2 ⟨hy, hx, hkey.symm⟩

/-- Equality of doubles is transitive. -/
theorem equal_trans (h : x.equal y = true) (h' : y.equal z = true) : x.equal z = true := by
  obtain ⟨hx, -, hkey⟩ := equal_iff.1 h
  obtain ⟨-, hz, hkey'⟩ := equal_iff.1 h'
  exact equal_iff.2 ⟨hx, hz, hkey.trans hkey'⟩

/-- A double equals itself exactly when it is a number. -/
theorem equal_self_iff : x.equal x = true ↔ x.isNaN = false := by
  simp [equal_iff]

end Numeric.Double

namespace Value

open Numeric (Double)

variable {v w : Value} {vs ws : List Value}

/-! ### What a value is equal to -/

/-- Values that are compared as they are: neither doubles nor made of others. -/
def IsAtom : Value → Prop
  | .integer _ | .fault _ | .symbol _ | .builtin _ => True
  | .double _ | .lambda _ _ _ | .sexpr _ | .qexpr _ => False

/-- An atom equals nothing but itself. -/
theorem eq_of_equal (h : v.equal w = true) (hv : v.IsAtom) : v = w := by
  cases v with
  | integer | fault | symbol | builtin => cases w <;> simp_all [equal]
  | _ => exact absurd hv id

/-- A double equals the doubles that are numerically equal. -/
theorem equal_double_iff {x : Double} :
    (Value.double x).equal w = true ↔ ∃ y, .double y = w ∧ x.equal y = true := by
  cases w <;> simp [equal]

/-- A lambda equals the lambdas with its parameters and its scope whose bodies are equal. -/
theorem equal_lambda_iff {formals : Formals} {body : List Value} {closure : ScopeId} :
    (Value.lambda formals body closure).equal w = true ↔
      ∃ body', .lambda formals body' closure = w ∧ equalAll body body' = true := by
  cases w with
  | lambda formals' body' closure' =>
      simp only [equal, Bool.and_eq_true, beq_iff_eq, lambda.injEq]
      constructor
      · rintro ⟨⟨rfl, hbody⟩, rfl⟩
        exact ⟨body', ⟨rfl, rfl, rfl⟩, hbody⟩
      · rintro ⟨_, ⟨rfl, rfl, rfl⟩, hbody⟩
        exact ⟨⟨rfl, hbody⟩, rfl⟩
  | _ => simp [equal]

/-- A list equals the lists whose items are equal one by one. -/
theorem equal_sexpr_iff :
    (Value.sexpr vs).equal w = true ↔ ∃ ws, .sexpr ws = w ∧ equalAll vs ws = true := by
  cases w <;> simp [equal]

/-- A quoted list equals the quoted lists whose items are equal one by one. -/
theorem equal_qexpr_iff :
    (Value.qexpr vs).equal w = true ↔ ∃ ws, .qexpr ws = w ∧ equalAll vs ws = true := by
  cases w <;> simp [equal]

/-- No items equal only no items. -/
theorem equalAll_nil_iff : equalAll [] ws = true ↔ [] = ws := by
  cases ws <;> simp [equalAll]

/-- Items are equal when the first are and the others are. -/
theorem equalAll_cons_iff :
    equalAll (v :: vs) ws = true ↔
      ∃ w ws', w :: ws' = ws ∧ v.equal w = true ∧ equalAll vs ws' = true := by
  cases ws <;> simp [equalAll, and_assoc]

/-! ### Both ways round -/

mutual

/-- Equality is symmetric. -/
theorem equal_symm : ∀ {v w : Value}, v.equal w = true → w.equal v = true
  | .integer n, w, h => by
      obtain rfl := eq_of_equal h trivial
      exact h
  | .double x, w, h => by
      obtain ⟨y, rfl, hxy⟩ := equal_double_iff.1 h
      exact equal_double_iff.2 ⟨x, rfl, Double.equal_symm hxy⟩
  | .fault cause, w, h => by
      obtain rfl := eq_of_equal h trivial
      exact h
  | .symbol name, w, h => by
      obtain rfl := eq_of_equal h trivial
      exact h
  | .builtin function, w, h => by
      obtain rfl := eq_of_equal h trivial
      exact h
  | .lambda formals body closure, w, h => by
      obtain ⟨body', rfl, hbody⟩ := equal_lambda_iff.1 h
      exact equal_lambda_iff.2 ⟨body, rfl, equalAll_symm hbody⟩
  | .sexpr vs, w, h => by
      obtain ⟨ws, rfl, hitems⟩ := equal_sexpr_iff.1 h
      exact equal_sexpr_iff.2 ⟨vs, rfl, equalAll_symm hitems⟩
  | .qexpr vs, w, h => by
      obtain ⟨ws, rfl, hitems⟩ := equal_qexpr_iff.1 h
      exact equal_qexpr_iff.2 ⟨vs, rfl, equalAll_symm hitems⟩

/-- Equality of items is symmetric. -/
theorem equalAll_symm : ∀ {vs ws : List Value}, equalAll vs ws = true → equalAll ws vs = true
  | [], ws, h => by
      obtain rfl := equalAll_nil_iff.1 h
      exact h
  | v :: vs, ws, h => by
      obtain ⟨w, ws', rfl, hfirst, hrest⟩ := equalAll_cons_iff.1 h
      exact equalAll_cons_iff.2 ⟨v, vs, rfl, equal_symm hfirst, equalAll_symm hrest⟩

end

mutual

/-- Equality is transitive. -/
theorem equal_trans : ∀ {u v w : Value}, u.equal v = true → v.equal w = true → u.equal w = true
  | .integer n, v, w, h, h' => by
      obtain rfl := eq_of_equal h trivial
      exact h'
  | .double x, v, w, h, h' => by
      obtain ⟨y, rfl, hxy⟩ := equal_double_iff.1 h
      obtain ⟨z, rfl, hyz⟩ := equal_double_iff.1 h'
      exact equal_double_iff.2 ⟨z, rfl, Double.equal_trans hxy hyz⟩
  | .fault cause, v, w, h, h' => by
      obtain rfl := eq_of_equal h trivial
      exact h'
  | .symbol name, v, w, h, h' => by
      obtain rfl := eq_of_equal h trivial
      exact h'
  | .builtin function, v, w, h, h' => by
      obtain rfl := eq_of_equal h trivial
      exact h'
  | .lambda formals body closure, v, w, h, h' => by
      obtain ⟨body', rfl, hbody⟩ := equal_lambda_iff.1 h
      obtain ⟨body'', rfl, hbody'⟩ := equal_lambda_iff.1 h'
      exact equal_lambda_iff.2 ⟨body'', rfl, equalAll_trans hbody hbody'⟩
  | .sexpr us, v, w, h, h' => by
      obtain ⟨vs, rfl, hitems⟩ := equal_sexpr_iff.1 h
      obtain ⟨ws, rfl, hitems'⟩ := equal_sexpr_iff.1 h'
      exact equal_sexpr_iff.2 ⟨ws, rfl, equalAll_trans hitems hitems'⟩
  | .qexpr us, v, w, h, h' => by
      obtain ⟨vs, rfl, hitems⟩ := equal_qexpr_iff.1 h
      obtain ⟨ws, rfl, hitems'⟩ := equal_qexpr_iff.1 h'
      exact equal_qexpr_iff.2 ⟨ws, rfl, equalAll_trans hitems hitems'⟩

/-- Equality of items is transitive. -/
theorem equalAll_trans : ∀ {us vs ws : List Value}, equalAll us vs = true →
    equalAll vs ws = true → equalAll us ws = true
  | [], vs, ws, h, h' => by
      obtain rfl := equalAll_nil_iff.1 h
      exact h'
  | u :: us, vs, ws, h, h' => by
      obtain ⟨v, vs', rfl, hfirst, hrest⟩ := equalAll_cons_iff.1 h
      obtain ⟨w, ws', rfl, hfirst', hrest'⟩ := equalAll_cons_iff.1 h'
      exact equalAll_cons_iff.2
        ⟨w, ws', rfl, equal_trans hfirst hfirst', equalAll_trans hrest hrest'⟩

end

/-! ### A value and itself -/

/-- No double among some values is a NaN. -/
def NoNaN (parts : List Value) : Prop :=
  ∀ x : Double, .double x ∈ parts → x.isNaN = false

/-- Two lists of parts are without a NaN when both are. -/
theorem noNaN_append_iff {parts parts' : List Value} :
    NoNaN (parts ++ parts') ↔ NoNaN parts ∧ NoNaN parts' := by
  simp only [NoNaN, List.mem_append, or_imp, forall_and]

mutual

/-- A value equals itself exactly when no part of it is a NaN. -/
theorem equal_self_iff : ∀ {v : Value}, v.equal v = true ↔ NoNaN v.parts
  | .integer n => by simp [equal, parts, NoNaN]
  | .double x => by simp [equal, parts, NoNaN, Double.equal_self_iff]
  | .fault cause => by simp [equal, parts, NoNaN]
  | .symbol name => by simp [equal, parts, NoNaN]
  | .builtin function => by simp [equal, parts, NoNaN]
  | .lambda formals body closure => by
      rw [parts, ← List.singleton_append, noNaN_append_iff, ← equalAll_self_iff]
      simp [equal, NoNaN]
  | .sexpr items => by
      rw [parts, ← List.singleton_append, noNaN_append_iff, ← equalAll_self_iff]
      simp [equal, NoNaN]
  | .qexpr items => by
      rw [parts, ← List.singleton_append, noNaN_append_iff, ← equalAll_self_iff]
      simp [equal, NoNaN]

/-- Items equal themselves exactly when no part of them is a NaN. -/
theorem equalAll_self_iff : ∀ {vs : List Value}, equalAll vs vs = true ↔ NoNaN (partsAll vs)
  | [] => by simp [equalAll, partsAll, NoNaN]
  | v :: vs => by
      rw [partsAll, noNaN_append_iff, ← equal_self_iff, ← equalAll_self_iff, equalAll,
        Bool.and_eq_true]

end

/-- **Equality of values is symmetric and transitive, and fails to be reflexive on NaN only.** If a
value equals another, the other equals it; if that equals a third, so does the first; and a value
equals itself exactly when no double in it, in lists or in bodies of lambdas, is a NaN. -/
theorem equal_is_partial_equivalence (u v w : Value) :
    (u.equal v = true → v.equal u = true) ∧
      (u.equal v = true → v.equal w = true → u.equal w = true) ∧
      (v.equal v = true ↔ ∀ x, .double x ∈ v.parts → x.isNaN = false) :=
  ⟨equal_symm, equal_trans, equal_self_iff⟩

/-- A list of a lambda with a double in its body and a builtin function. -/
def holding (x : Double) : Value :=
  .qexpr [.lambda ⟨["x"], some "r"⟩ [.symbol "x", .sexpr [.double x]] 1, .builtin .head]

/-- With either zero the list is the same, with a NaN it is not even equal to itself. -/
theorem holding_zeros_and_nan :
    (holding ⟨0⟩).equal (holding ⟨0x8000000000000000⟩) = true ∧
      (holding ⟨0x8000000000000000⟩).equal (holding ⟨0⟩) = true ∧
      (holding ⟨0⟩).equal (holding ⟨0⟩) = true ∧
      ¬ (holding .nan).equal (holding .nan) = true := by
  have hzeros : (holding ⟨0⟩).equal (holding ⟨0x8000000000000000⟩) = true := by decide
  obtain ⟨hsymm, htrans, -⟩ :=
    equal_is_partial_equivalence (holding ⟨0⟩) (holding ⟨0x8000000000000000⟩) (holding ⟨0⟩)
  obtain ⟨-, -, hself⟩ :=
    equal_is_partial_equivalence (holding ⟨0⟩) (holding .nan) (holding ⟨0⟩)
  refine ⟨hzeros, hsymm hzeros, htrans hzeros (hsymm hzeros), ?_⟩
  rw [hself]
  intro hnumbers
  have hnan : Double.nan.isNaN = false := hnumbers .nan (by simp [holding, parts, partsAll])
  revert hnan
  decide

end Value

end QuoteLisp
