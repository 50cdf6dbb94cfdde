import QuoteLisp.Builtin.Effect

/-!
# Evaluation

`eval` reduces a value in a scope and threads the heap through. Its first argument bounds how deep
reductions may nest: `none` means that the bound was too small, never a fault of the program. A fault
of the program is a value, and the first one met ends the reduction of the list around it.
-/

set_option autoImplicit false

namespace QuoteLisp

/-- A result with the heap it leaves, or nothing when the bound was too small. -/
abbrev Outcome := Option (Value × Heap)

/-- How to reduce a value in a scope of a heap. -/
abbrev Reducer := Heap → ScopeId → Value → Outcome

namespace Reducer

/-- Reduces values from left to right up to the first fault, which is then the result. -/
def reduceEach (reduce : Reducer) (heap : Heap) (scope : ScopeId) :
    List Value → Option (Except Fault (List Value) × Heap)
  | [] => some (.ok [], heap)
  | v :: vs =>
      match reduce heap scope v with
      | none => none
      | some (.fault fault, heap) => some (.error fault, heap)
      | some (w, heap) =>
          match reduceEach reduce heap scope vs with
          | none => none
          | some (.error fault, heap) => some (.error fault, heap)
          | some (.ok ws, heap) => some (.ok (w :: ws), heap)

/-- Makes the effect of a builtin function happen. -/
def carryOut (reduce : Reducer) (heap : Heap) (scope : ScopeId) : Effect → Outcome
  | .give v => some (v, heap)
  | .bind .global entries => some (.unit, heap.defineAll (heap.root scope) entries)
  | .bind .here entries => some (.unit, heap.defineAll scope entries)
  | .reduce items => reduce heap scope (.sexpr items)

/-- Calls a builtin function as if it had the given arity. -/
def callAs (reduce : Reducer) (arity : Arity) (heap : Heap) (scope : ScopeId) (function : Builtin)
    (args : List Value) : Outcome :=
  match arity.check args.length with
  | .error fault => some (.fault fault, heap)
  | .ok () =>
      match function.perform scope args with
      | .error fault => some (.fault fault, heap)
      | .ok effect => carryOut reduce heap scope effect

/-- Applies a function to arguments. A lambda runs in a new scope inside the one it closes over. -/
def apply (reduce : Reducer) (heap : Heap) (scope : ScopeId) (function : Value)
    (args : List Value) : Outcome :=
  match function with
  | .builtin b => callAs reduce b.arity heap scope b args
  | .lambda formals body closure =>
      match heap.enter closure formals args with
      | .error fault => some (.fault fault, heap)
      | .ok (frame, heap) => reduce heap frame (.sexpr body)
  | _ => some (.fault .badSexprStart, heap)

/-- Reduces a program that is not empty. A lone item is its own result; a quoting function takes the
other items as they are written; otherwise all items are reduced before the first is applied. -/
def reduceItems (reduce : Reducer) (heap : Heap) (scope : ScopeId) (first : Value)
    (rest : List Value) : Outcome :=
  match reduce heap scope first with
  | none => none
  | some (.fault fault, heap) => some (.fault fault, heap)
  | some (function, heap) =>
      if rest.isEmpty then some (function, heap)
      else if function.isQuoting then apply reduce heap scope function rest
      else
        match reduceEach reduce heap scope rest with
        | none => none
        | some (.error fault, heap) => some (.fault fault, heap)
        | some (.ok args, heap) => apply reduce heap scope function args

end Reducer

/-- Reduces a value in a scope, with reductions nested at most `bound` deep. -/
def eval (bound : Nat) : Reducer := fun heap scope v =>
  match v with
  | .symbol name =>
      match heap.lookup scope name with
      | .ok w => some (w, heap)
      | .error fault => some (.fault fault, heap)
  | .sexpr (first :: rest) =>
      match bound with
      | 0 => none
      | bound + 1 => (eval bound).reduceItems heap scope first rest
  | v => some (v, heap)

/-- Calls a builtin function by itself, as if it had the given arity. -/
def callBuiltin (bound : Nat) (arity : Arity) (heap : Heap) (scope : ScopeId) (function : Builtin)
    (args : List Value) : Outcome :=
  (eval bound).callAs arity heap scope function args

end QuoteLisp
