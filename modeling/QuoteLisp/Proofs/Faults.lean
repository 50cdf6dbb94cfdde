import QuoteLisp.Proofs.Effects

/-!
# The fault that no function gives

Of the nine faults one is never made: that of an invalid operator. Every function of the language
finds its faults in the number, the types or the values of its arguments, and passes on only what its
parts find, so it is enough to go through the parts one by one.
-/

set_option autoImplicit false

namespace QuoteLisp

/-- A mapped computation raises no fault that the computation does not raise. -/
theorem map_ne_error {ε α β : Type} {x : Except ε α} {f : α → β} {e : ε} (h : x ≠ .error e) :
    x.map f ≠ .error e := by
  cases x with
  | error e' =>
      rintro ⟨⟩
      exact h rfl
  | ok a => rintro ⟨⟩

/-- Two steps raise no fault that neither of them raises. -/
theorem bind_ne_error {ε α β : Type} {x : Except ε α} {f : α → Except ε β} {e : ε}
    (h : x ≠ .error e) (hf : ∀ a, f a ≠ .error e) : x.bind f ≠ .error e := by
  cases x with
  | error e' =>
      rintro ⟨⟩
      exact h rfl
  | ok a => exact hf a

/-! ### Numbers -/

namespace Arith

/-- An operation on two integers is never an invalid operator. -/
theorem onInt64_ne_badOp (op : Arith) (x y : Int64) : op.onInt64 x y ≠ .error .badOp := by
  cases op <;> simp only [onInt64, powInt64] <;> grind

/-- An operation on two doubles is never an invalid operator. -/
theorem onDouble_ne_badOp (op : Arith) (x y : Numeric.Double) :
    op.onDouble x y ≠ .error .badOp := by
  simp only [onDouble]
  grind

/-- Repeated steps that are no invalid operator come to none. -/
theorem foldlM_ne_badOp {α : Type} {combine : α → α → Except Fault α}
    (h : ∀ x y, combine x y ≠ .error .badOp) (xs : List α) (x : α) :
    xs.foldlM combine x ≠ .error .badOp := by
  induction xs generalizing x with
  | nil => rintro ⟨⟩
  | cons y ys ih => exact bind_ne_error (h x y) ih

/-- A fold of operands is no invalid operator when its steps are none. -/
theorem fold_ne_badOp {α : Type} (op : Arith) (negate : α → α) {combine : α → α → Except Fault α}
    (h : ∀ x y, combine x y ≠ .error .badOp) (xs : List α) :
    op.fold negate combine xs ≠ .error .badOp := by
  match xs with
  | [] => rintro ⟨⟩
  | [x] => rintro ⟨⟩
  | x :: y :: rest => exact foldlM_ne_badOp h (y :: rest) x

end Arith

/-- Arguments that are no numbers are another fault than an invalid operator. -/
theorem Operands.ofValues_ne_badOp (vs : List Value) : Operands.ofValues vs ≠ .error .badOp := by
  induction vs with
  | nil => rintro ⟨⟩
  | cons v vs ih =>
      unfold ofValues
      split
      · unfold cons?
        split <;> rintro ⟨⟩
      · next fault hfault =>
          rintro ⟨⟩
          exact ih hfault

/-! ### Arguments -/

/-- A wrong number of arguments is another fault than an invalid operator. -/
theorem Arity.check_ne_badOp (arity : Arity) (n : Nat) : arity.check n ≠ .error .badOp := by
  unfold check
  grind

/-- Arguments that do not match the parameters are another fault than an invalid operator. -/
theorem Formals.matchArgs_ne_badOp (rest : Option String) (names : List String)
    (args : List Value) : matchArgs rest names args ≠ .error .badOp := by
  induction names generalizing args with
  | nil =>
      unfold matchArgs
      split <;> rintro ⟨⟩
  | cons name names ih =>
      cases args with
      | nil => rintro ⟨⟩
      | cons v args =>
          unfold matchArgs
          split
          · rintro ⟨⟩
          · next fault hfault =>
              rintro ⟨⟩
              exact ih args hfault

/-- A call that cannot be entered is another fault than an invalid operator. -/
theorem Heap.enter_ne_badOp (heap : Heap) (closure : ScopeId) (formals : Formals)
    (args : List Value) : heap.enter closure formals args ≠ .error .badOp := by
  unfold enter
  split
  · rintro ⟨⟩
  · next fault hfault =>
      rintro ⟨⟩
      exact Formals.matchArgs_ne_badOp _ _ _ hfault

/-- A value that is no list of items is another fault than an invalid operator. -/
theorem Value.toItems_ne_badOp (v : Value) : v.toItems ≠ .error .badOp := by
  cases v <;> rintro ⟨⟩

/-- A value that is no name is another fault than an invalid operator. -/
theorem Value.toName_ne_badOp (v : Value) : v.toName ≠ .error .badOp := by
  cases v <;> rintro ⟨⟩

/-! ### Builtin functions -/

namespace Builtin

/-- A first argument that is no list is another fault than an invalid operator. -/
theorem firstList_ne_badOp (args : List Value) : firstList args ≠ .error .badOp := by
  cases args with
  | nil => rintro ⟨⟩
  | cons v rest => exact v.toItems_ne_badOp

/-- A first argument without an item is another fault than an invalid operator. -/
theorem firstNonempty_ne_badOp (args : List Value) : firstNonempty args ≠ .error .badOp := by
  have hlist := firstList_ne_badOp args
  unfold firstNonempty
  grind

/-- Arguments that cannot be joined are another fault than an invalid operator. -/
theorem joinItems_ne_badOp (args : List Value) : joinItems args ≠ .error .badOp := by
  induction args with
  | nil => rintro ⟨⟩
  | cons v vs ih =>
      have hv := v.toItems_ne_badOp
      unfold joinItems
      grind

/-- A list with other items than names is another fault than an invalid operator. -/
theorem toNames_ne_badOp (items : List Value) : toNames items ≠ .error .badOp := by
  induction items with
  | nil => rintro ⟨⟩
  | cons v vs ih =>
      have hv := v.toName_ne_badOp
      unfold toNames
      grind

/-- An arithmetic function never raises an invalid operator. -/
theorem calculate_ne_badOp (op : Arith) (args : List Value) : calculate op args ≠ .error .badOp := by
  unfold calculate
  split
  · next fault hfault =>
      rintro ⟨⟩
      exact Operands.ofValues_ne_badOp args hfault
  · exact map_ne_error (op.fold_ne_badOp _ op.onInt64_ne_badOp _)
  · exact map_ne_error (op.fold_ne_badOp _ op.onDouble_ne_badOp _)

/-- Putting a value in front of a list never raises an invalid operator. -/
theorem construct_ne_badOp (args : List Value) : construct args ≠ .error .badOp := by
  unfold construct
  split
  · next target _ =>
      have htarget := target.toItems_ne_badOp
      unfold giveList
      grind
  · rintro ⟨⟩

/-- A definition never raises an invalid operator. -/
theorem bindNames_ne_badOp (place : Place) (args : List Value) :
    bindNames place args ≠ .error .badOp := by
  unfold bindNames
  split
  · rintro ⟨⟩
  · next target values =>
      have htarget := target.toItems_ne_badOp
      have hnames := toNames_ne_badOp
      grind

/-- Making a lambda never raises an invalid operator. -/
theorem abstract_ne_badOp (scope : ScopeId) (args : List Value) :
    abstract scope args ≠ .error .badOp := by
  unfold abstract
  split
  · next params code _ =>
      have hparams := params.toItems_ne_badOp
      have hcode := code.toItems_ne_badOp
      have hnames := toNames_ne_badOp
      grind
  · rintro ⟨⟩

/-- No function calls an operation invalid. -/
theorem perform_ne_badOp (function : Builtin) (scope : ScopeId) (args : List Value) :
    function.perform scope args ≠ .error .badOp := by
  have hgive : ∀ items, giveList items ≠ .error .badOp := fun _ => by rintro ⟨⟩
  cases function with
  | arith op => exact calculate_ne_badOp op args
  | list | quote => exact hgive args
  | head | car | tail | cdr | init =>
      exact bind_ne_error (firstNonempty_ne_badOp args) fun _ => hgive _
  | join => exact bind_ne_error (joinItems_ne_badOp args) hgive
  | len | eval => exact map_ne_error (firstList_ne_badOp args)
  | cons => exact construct_ne_badOp args
  | define | assign => exact bindNames_ne_badOp _ args
  | lambda => exact abstract_ne_badOp scope args

end Builtin

end QuoteLisp
