import QuoteLisp.Heap

/-!
# What operations do to a heap

A heap is seen through its size, the enclosing scope of each scope and the bindings of each scope.
These lemmas tell each operation by what it does to the three; in particular a definition changes no
chain (`chain_define`).
-/

set_option autoImplicit false

namespace QuoteLisp

namespace Heap

/-! ### Definitions -/

/-- A definition makes no scope. -/
@[simp]
theorem size_define (heap : Heap) (id : ScopeId) (name : String) (v : Value) :
    (heap.define id name v).size = heap.size := by
  simp [define, size]

/-- A definition leaves every scope where it lies. -/
@[simp]
theorem parent?_define (heap : Heap) (id : ScopeId) (name : String) (v : Value) (other : ScopeId) :
    (heap.define id name v).parent? other = heap.parent? other := by
  have hparent : (heap.scopes.modify id (·.define name v))[other]?.bind Scope.parent =
      heap.scopes[other]?.bind Scope.parent := by
    rw [Array.getElem?_modify]
    split
    · cases heap.scopes[other]? <;> rfl
    · rfl
  simp only [define, parent?, hparent]

/-- A definition changes the bindings of its scope, which has to exist, and of no other. -/
theorem bindings_define (heap : Heap) (id : ScopeId) (name : String) (v : Value)
    (other : ScopeId) :
    (heap.define id name v).bindings other =
      if other = id ∧ id < heap.size then (heap.bindings id).insert name v
      else heap.bindings other := by
  simp only [define, bindings, Array.getElem?_modify]
  by_cases heq : other = id
  · subst heq
    by_cases hlt : other < heap.scopes.size
    · simp [size, hlt, Scope.define]
    · simp [size, hlt]
  · simp [heq, Ne.symm heq]

/-- Chains are told by the enclosing scopes alone. -/
theorem chain_congr {heap heap' : Heap} {id : ScopeId}
    (h : ∀ d, d ≤ id → heap'.parent? d = heap.parent? d) : heap'.chain id = heap.chain id := by
  induction id using Nat.strongRecOn with
  | ind id ih =>
      rw [chain, chain]
      split
      · next hnone =>
          rw [h id (Nat.le_refl id)] at hnone
          split
          · rfl
          · next hsome => simp [hnone] at hsome
      · next parent hsome =>
          rw [h id (Nat.le_refl id)] at hsome
          have hlt := parent?_lt hsome
          have htail := ih parent hlt fun d hd => h d (Nat.le_trans hd (Nat.le_of_lt hlt))
          split
          · next hnone => simp [hnone] at hsome
          · next parent' hsome' =>
              rw [hsome'] at hsome
              rw [htail, Option.some.inj hsome]

/-- A definition changes no chain. -/
@[simp]
theorem chain_define (heap : Heap) (id : ScopeId) (name : String) (v : Value) (other : ScopeId) :
    (heap.define id name v).chain other = heap.chain other :=
  chain_congr fun d _ => parent?_define heap id name v d

/-! ### New scopes -/

/-- A new scope makes the heap larger by one. -/
@[simp]
theorem size_push (heap : Heap) (scope : Scope) : (heap.push scope).2.size = heap.size + 1 := by
  simp [push, size]

/-- A new scope leaves the bindings of the old ones alone and has its own. -/
theorem bindings_push (heap : Heap) (scope : Scope) (id : ScopeId) :
    (heap.push scope).2.bindings id =
      if id = heap.size then scope.bindings else heap.bindings id := by
  simp only [push, bindings, size, Array.getElem?_push]
  by_cases heq : id = heap.scopes.size <;> simp [heq]

/-- A new scope lies in the scope it was given, if that exists, and the old ones where they lay. -/
theorem parent?_push (heap : Heap) (scope : Scope) (id : ScopeId) :
    (heap.push scope).2.parent? id =
      if id = heap.size then scope.parent.filter (· < heap.size) else heap.parent? id := by
  by_cases heq : id = heap.size
  · subst heq
    simp [push, parent?, size]
  · have hne : id ≠ heap.scopes.size := heq
    simp [push, parent?, heq, Array.getElem?_push, hne]

end Heap

end QuoteLisp
