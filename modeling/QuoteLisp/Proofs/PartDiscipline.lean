import QuoteLisp.Proofs.Sessions

/-!
# Properties of the parts of values

Evaluation takes values apart and puts them together again, but the only values it makes that were
not there before are lists, lambdas, faults, builtin functions and numbers. So a property of single
values is kept by all parts of all values, if lists and the like have it always, a lambda has it with
the symbols that name its parameters, and numbers have it with the operands they are computed from. A
`PartDiscipline` is such a property. It is one of the disciplines of evaluation, where a heap is in
order when all parts of all that is bound have the property (`Heap.AllParts`), and it is kept by a line
and by a session when all parts of the programs that lines spell have it.
-/

set_option autoImplicit false

namespace QuoteLisp

namespace Value

/-- All parts of a value, the value included, have a property. -/
def AllParts (P : Value → Prop) (v : Value) : Prop :=
  ∀ u ∈ v.parts, P u

variable {P : Value → Prop} {v : Value}

/-- What holds of all parts of a value holds of the value. -/
theorem AllParts.self (h : v.AllParts P) : P v := by
  apply h
  cases v <;> exact List.mem_cons_self

/-- The parts of several values are the parts of each. -/
theorem mem_partsAll_iff {vs : List Value} {u : Value} :
    u ∈ partsAll vs ↔ ∃ v ∈ vs, u ∈ v.parts := by
  induction vs with
  | nil => simp [partsAll]
  | cons v vs ih => simp [partsAll, ih]

/-- A property of the parts of several values is one of all parts of each. -/
theorem forall_partsAll_iff {vs : List Value} :
    (∀ u ∈ partsAll vs, P u) ↔ ∀ v ∈ vs, v.AllParts P := by
  simp only [mem_partsAll_iff, AllParts]
  grind

/-- The parts of a list are the list and those of its items. -/
theorem allParts_sexpr {items : List Value} :
    (Value.sexpr items).AllParts P ↔ P (.sexpr items) ∧ ∀ v ∈ items, v.AllParts P := by
  rw [AllParts, parts, List.forall_mem_cons, forall_partsAll_iff]

/-- The parts of a quoted list are the list and those of its items. -/
theorem allParts_qexpr {items : List Value} :
    (Value.qexpr items).AllParts P ↔ P (.qexpr items) ∧ ∀ v ∈ items, v.AllParts P := by
  rw [AllParts, parts, List.forall_mem_cons, forall_partsAll_iff]

/-- The parts of a lambda are the lambda and those of its body. -/
theorem allParts_lambda {formals : Formals} {body : List Value} {closure : ScopeId} :
    (Value.lambda formals body closure).AllParts P ↔
      P (.lambda formals body closure) ∧ ∀ v ∈ body, v.AllParts P := by
  rw [AllParts, parts, List.forall_mem_cons, forall_partsAll_iff]

/-- A symbol has no part but itself. -/
theorem allParts_symbol {name : String} : (Value.symbol name).AllParts P ↔ P (.symbol name) := by
  simp [AllParts, parts]

/-- A property of a value without other parts is one of all its parts. -/
theorem allParts_of_parts_eq (hparts : v.parts = [v]) (hv : P v) : v.AllParts P := by
  rw [AllParts, hparts]
  simpa using hv

end Value

/-- All parts of all that is bound in a heap have a property. -/
def Heap.AllParts (P : Value → Prop) (heap : Heap) : Prop :=
  ∀ d name v, (heap.bindings d).get? name = some v → v.AllParts P

/-- The first heap binds nothing, so its parts have every property. -/
theorem Heap.allParts_initial (P : Value → Prop) : Heap.initial.AllParts P := by
  intro d name v hget
  rw [Heap.bindings_initial, Bindings.get?_empty] at hget
  cases hget

/-- A property of values that evaluation hands on from parts to parts. -/
structure PartDiscipline where
  ok : Value → Prop
  sexpr : ∀ items, ok (.sexpr items)
  qexpr : ∀ items, ok (.qexpr items)
  integer : ∀ n, ok (.integer n)
  fault : ∀ cause, ok (.fault cause)
  builtin : ∀ function, ok (.builtin function)
  lambda : ∀ {formals body closure},
    ok (.lambda formals body closure) ↔ ∀ name ∈ formals.names, ok (.symbol name)
  calculate : ∀ {op args x}, (∀ arg ∈ args, ok arg) →
    Builtin.calculate op args = .ok (.give (.double x)) → ok (.double x)

namespace PartDiscipline

variable (D : PartDiscipline) {heap heap' : Heap} {scope : ScopeId}

/-- What is computed from arguments in order is in order. -/
theorem allParts_of_calculate {op : Arith} {args : List Value} {v : Value}
    (hargs : ∀ arg ∈ args, arg.AllParts D.ok) (h : Builtin.calculate op args = .ok (.give v)) :
    v.AllParts D.ok := by
  rcases Builtin.calculate_eq_ok h with ⟨n, heq⟩ | ⟨x, heq⟩
  · cases heq
    exact Value.allParts_of_parts_eq rfl (D.integer n)
  · cases heq
    exact Value.allParts_of_parts_eq rfl (D.calculate (fun arg harg => (hargs arg harg).self) h)

/-- Values fit when all their parts have the property, and scopes always do. -/
def toDiscipline : Discipline where
  heapOk := Heap.AllParts D.ok
  scopeOk _ _ := True
  sourceOk _ v := v.AllParts D.ok
  resultOk _ v := v.AllParts D.ok
  argOk _ := True
  change _ _ _ := True
  change_refl _ _ := trivial
  change_trans _ _ := trivial
  scope_mono _ _ := trivial
  source_mono _ hv := hv
  result_mono _ hv := hv
  result_of_normal hv _ := hv
  arg_of_not_fault _ := trivial
  source_of_result hv _ := hv
  source_sexpr := by simp [Value.allParts_sexpr, D.sexpr]
  result_qexpr := by simp [Value.allParts_qexpr, D.qexpr]
  result_lambda := by simp [Value.allParts_lambda, Value.allParts_symbol, D.lambda]
  result_integer _ n := Value.allParts_of_parts_eq rfl (D.integer n)
  result_fault _ cause _ := Value.allParts_of_parts_eq rfl (D.fault cause)
  result_builtin _ function := Value.allParts_of_parts_eq rfl (D.builtin function)
  result_calculate := D.allParts_of_calculate
  result_binding hheap _ _ hget := hheap _ _ _ hget
  define name hheap _ _ hv _ :=
    ⟨fun _ _ _ hget => Heap.forall_define (hheap _ _ _) hv hget, trivial⟩
  spawn := by
    intro heap closure hheap _
    refine ⟨?_, trivial⟩
    intro d name v hget
    rw [Heap.bindings_spawn] at hget
    exact hheap d name v hget
  change_of_call _ _ := trivial

/-- An evaluation hands the property on to its result and to all that is bound afterwards. -/
theorem finishes {v r : Value} (hheap : heap.AllParts D.ok) (hv : v.AllParts D.ok)
    (h : Finishes heap scope v r heap') : r.AllParts D.ok ∧ heap'.AllParts D.ok := by
  have hkeeps := D.toDiscipline.reduces h.reduces hheap trivial hv
  exact ⟨hkeeps.resultOk, hkeeps.heapOk⟩

section Lines

variable (hparse : ∀ {line : List Char} {program : Value},
  Value.parse line = .ok program → program.AllParts D.ok)

include hparse

/-- A line hands the property on, if all parts of what lines spell have it. -/
theorem evalLine {bound : Nat} {line : List Char} {result : Except InputError Value}
    (hheap : heap.AllParts D.ok)
    (h : Session.evalLine bound heap scope line = some (result, heap')) :
    heap'.AllParts D.ok ∧ ∀ r, result = .ok r → r.AllParts D.ok := by
  rcases Session.evalLine_cases h with ⟨cause, rfl, rfl, -⟩ | ⟨program, v, hprogram, rfl, hfinishes⟩
  · refine ⟨hheap, ?_⟩
    rintro r ⟨⟩
  · obtain ⟨hv, hheap'⟩ := D.finishes hheap (hparse hprogram) hfinishes
    refine ⟨hheap', ?_⟩
    rintro r ⟨⟩
    exact hv

/-- A run over lines keeps a property of all parts of all bindings. -/
theorem runs {lines : List (List Char)} (hheap : heap.AllParts D.ok)
    (h : Session.Runs scope heap lines heap') : heap'.AllParts D.ok :=
  (D.toDiscipline.runs_of_programs (fun _ _ _ hprogram _ => hparse hprogram) hheap trivial h).1

end Lines

end PartDiscipline

end QuoteLisp
