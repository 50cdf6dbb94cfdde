import QuoteLisp.Value

/-!
# What a value is made of

Values nest: lists have items, and a lambda has a body. `Value.parts` lists a value together with
all values inside it, at any depth, and `Value.closures` the scopes that the lambdas among them close
over. Both are computed, so that what is said of all parts of a value can be checked.
-/

set_option autoImplicit false

namespace QuoteLisp

namespace Value

mutual

/-- A value and all values inside it, at any depth. -/
def parts : Value → List Value
  | .lambda formals body closure => .lambda formals body closure :: partsAll body
  | .sexpr items => .sexpr items :: partsAll items
  | .qexpr items => .qexpr items :: partsAll items
  | .integer n => [.integer n]
  | .double x => [.double x]
  | .fault cause => [.fault cause]
  | .symbol name => [.symbol name]
  | .builtin function => [.builtin function]

/-- Several values and all values inside them. -/
def partsAll : List Value → List Value
  | [] => []
  | v :: vs => parts v ++ partsAll vs

end

/-- The scope that a lambda closes over. -/
def closure? : Value → Option ScopeId
  | .lambda _ _ closure => some closure
  | _ => none

/-- The scopes that the lambdas among the parts of a value close over. -/
def closures (v : Value) : List ScopeId :=
  v.parts.filterMap closure?

/-- A value closes over the scopes of the lambdas among its parts. -/
theorem mem_closures_iff {v : Value} {c : ScopeId} :
    c ∈ v.closures ↔ ∃ formals body, .lambda formals body c ∈ v.parts := by
  simp only [closures, List.mem_filterMap]
  constructor
  · rintro ⟨u, hu, hc⟩
    cases u with
    | lambda formals body closure =>
        cases hc
        exact ⟨formals, body, hu⟩
    | _ => cases hc
  · rintro ⟨formals, body, hmem⟩
    exact ⟨_, hmem, rfl⟩

/-- An integer closes over nothing. -/
@[simp]
theorem closures_integer (n : Int64) : (Value.integer n).closures = [] := rfl

/-- A double closes over nothing. -/
@[simp]
theorem closures_double (x : Numeric.Double) : (Value.double x).closures = [] := rfl

/-- A fault closes over nothing. -/
@[simp]
theorem closures_fault (cause : Fault) : (Value.fault cause).closures = [] := rfl

/-- A symbol closes over nothing. -/
@[simp]
theorem closures_symbol (name : String) : (Value.symbol name).closures = [] := rfl

/-- A builtin function closes over nothing. -/
@[simp]
theorem closures_builtin (function : Builtin) : (Value.builtin function).closures = [] := rfl

/-- Several values close over what each of them closes over. -/
theorem filterMap_partsAll (vs : List Value) :
    (partsAll vs).filterMap closure? = vs.flatMap closures := by
  induction vs with
  | nil => rfl
  | cons v vs ih =>
      rw [partsAll, List.filterMap_append, ih, List.flatMap_cons]
      rfl

/-- A list closes over what its items close over. -/
@[simp]
theorem closures_sexpr (items : List Value) :
    (Value.sexpr items).closures = items.flatMap closures :=
  filterMap_partsAll items

/-- A quoted list closes over what its items close over. -/
@[simp]
theorem closures_qexpr (items : List Value) :
    (Value.qexpr items).closures = items.flatMap closures :=
  filterMap_partsAll items

/-- A lambda closes over its scope and over what its body closes over. -/
@[simp]
theorem closures_lambda (formals : Formals) (body : List Value) (closure : ScopeId) :
    (Value.lambda formals body closure).closures = closure :: body.flatMap closures := by
  rw [← filterMap_partsAll]
  rfl

section

variable {P : ScopeId → Prop}

/-- A list closes over scopes with a property when all of its items do. -/
theorem forall_closures_sexpr {items : List Value} :
    (∀ c ∈ (Value.sexpr items).closures, P c) ↔ ∀ v ∈ items, ∀ c ∈ v.closures, P c := by
  simp only [closures_sexpr, List.mem_flatMap]
  grind

/-- A quoted list closes over scopes with a property when all of its items do. -/
theorem forall_closures_qexpr {items : List Value} :
    (∀ c ∈ (Value.qexpr items).closures, P c) ↔ ∀ v ∈ items, ∀ c ∈ v.closures, P c :=
  forall_closures_sexpr

/-- A lambda closes over scopes with a property when its own has it and its body does. -/
theorem forall_closures_lambda {formals : Formals} {body : List Value} {closure : ScopeId} :
    (∀ c ∈ (Value.lambda formals body closure).closures, P c) ↔
      P closure ∧ ∀ v ∈ body, ∀ c ∈ v.closures, P c := by
  rw [closures_lambda, ← closures_sexpr, List.forall_mem_cons, forall_closures_sexpr]

end

end Value

end QuoteLisp
