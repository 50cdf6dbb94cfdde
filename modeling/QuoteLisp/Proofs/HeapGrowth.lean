import Mathlib
import QuoteLisp.Proofs.Discipline

/-!
# The heap only grows

Scopes are never taken away, nor are their links or the names they bind: a definition adds a name or
gives one a new value, and a call adds a scope, which is linked to one that was there before it. So a
heap stays well formed. Along the links the numbers of scopes decrease, down to the root, which is the
first scope; and whatever lambda is bound somewhere or comes out as a result closes over a scope that
is there. As links stay, so do chains, and with them the depth and the root of every scope.

Links are taken here as the heap holds them (`Heap.link?`), and not only where they lead to an earlier
scope, as in `Heap.parent?`.
-/

set_option autoImplicit false

namespace QuoteLisp

namespace Heap

/-- The scope that a scope is linked to. -/
def link? (heap : Heap) (id : ScopeId) : Option ScopeId :=
  heap.scopes[id]?.bind Scope.parent

/-- A heap in which every scope is linked to one made before it, except for a single root, and
everything that is bound closes over scopes that exist. As no scope is made before the first, that is
the root. -/
structure WellFormed (heap : Heap) : Prop where
  root_lt : globalId < heap.size
  link?_root : heap.link? globalId = none
  link?_lt : ∀ d, d < heap.size → d ≠ globalId → ∃ parent, heap.link? d = some parent ∧ parent < d
  closures_lt : ∀ d name v, (heap.bindings d).get? name = some v → ∀ c ∈ v.closures, c < heap.size

/-- A heap has grown into another: its scopes are still there with the same links, and all names are
still bound where they were. -/
structure Grows (heap heap' : Heap) : Prop where
  size_le : heap.size ≤ heap'.size
  link?_eq : ∀ d, d < heap.size → heap'.link? d = heap.link? d
  bound : ∀ d name v, (heap.bindings d).get? name = some v →
    ∃ w, (heap'.bindings d).get? name = some w

variable {heap heap' : Heap} {d : ScopeId}

/-! ### Links -/

/-- The scope around a scope is the one that it is linked to, if that was made before. -/
theorem parent?_eq_link? (heap : Heap) (id : ScopeId) :
    heap.parent? id = (heap.link? id).filter (· < id) := rfl

/-- A definition changes no link. -/
@[simp]
theorem link?_define (heap : Heap) (id : ScopeId) (name : String) (v : Value) (other : ScopeId) :
    (heap.define id name v).link? other = heap.link? other := by
  simp only [link?, define, Array.getElem?_modify]
  split
  · cases heap.scopes[other]? <;> rfl
  · rfl

/-- A new scope is linked as it was asked for, and no other link changes. -/
theorem link?_spawn (heap : Heap) (parent id : ScopeId) :
    (heap.spawn parent).2.link? id = if id = heap.size then some parent else heap.link? id := by
  simp only [link?, spawn, push, size, Array.getElem?_push]
  by_cases heq : id = heap.scopes.size
  · simp only [heq, if_true]
    rfl
  · simp only [heq, if_false]

/-- A new scope changes no link of an old one. -/
theorem link?_spawn_of_lt {parent : ScopeId} (h : d < heap.size) :
    (heap.spawn parent).2.link? d = heap.link? d := by
  rw [link?_spawn, if_neg (Nat.ne_of_lt h)]

/-! ### Growth -/

/-- A heap grows into itself. -/
theorem Grows.refl (heap : Heap) : heap.Grows heap :=
  ⟨Nat.le_refl _, fun _ _ => rfl, fun _ _ v hget => ⟨v, hget⟩⟩

/-- Growth twice is growth. -/
theorem Grows.trans {heap₁ heap₂ heap₃ : Heap} (h₁ : heap₁.Grows heap₂) (h₂ : heap₂.Grows heap₃) :
    heap₁.Grows heap₃ := by
  refine ⟨Nat.le_trans h₁.size_le h₂.size_le, ?_, ?_⟩
  · intro d hd
    rw [h₂.link?_eq d (Nat.lt_of_lt_of_le hd h₁.size_le), h₁.link?_eq d hd]
  · intro d name v hget
    obtain ⟨w, hw⟩ := h₁.bound d name v hget
    exact h₂.bound d name w hw

/-- A heap grows by a definition. -/
theorem grows_define (heap : Heap) (id : ScopeId) (name : String) (v : Value) :
    heap.Grows (heap.define id name v) := by
  refine ⟨Nat.le_of_eq (size_define heap id name v).symm, ?_, ?_⟩
  · intro d _
    exact link?_define heap id name v d
  · intro d name' w hget
    rw [bindings_define]
    split
    · next hcond =>
        obtain ⟨rfl, -⟩ := hcond
        rw [Bindings.get?_insert]
        split
        · exact ⟨v, rfl⟩
        · exact ⟨w, hget⟩
    · exact ⟨w, hget⟩

/-- A heap grows by a new scope. -/
theorem grows_spawn (heap : Heap) (parent : ScopeId) : heap.Grows (heap.spawn parent).2 := by
  refine ⟨?_, ?_, ?_⟩
  · rw [size_spawn]
    exact Nat.le_succ _
  · intro d hd
    exact link?_spawn_of_lt hd
  · intro d name v hget
    rw [bindings_spawn]
    exact ⟨v, hget⟩

/-- Growth leaves the old scopes where they lie. -/
theorem Grows.parent?_eq (h : heap.Grows heap') (hd : d < heap.size) :
    heap'.parent? d = heap.parent? d := by
  rw [parent?_eq_link?, parent?_eq_link?, h.link?_eq d hd]

/-- The chains of old scopes stay what they were. -/
theorem Grows.chain_eq (h : heap.Grows heap') (hd : d < heap.size) :
    heap'.chain d = heap.chain d :=
  chain_congr fun _ hle => h.parent?_eq (Nat.lt_of_le_of_lt hle hd)

/-- Growth changes no depth of an old scope. -/
theorem Grows.depth_eq (h : heap.Grows heap') (hd : d < heap.size) :
    heap'.depth d = heap.depth d := by
  rw [depth, depth, h.chain_eq hd]

/-- Growth changes no root of an old scope. -/
theorem Grows.root_eq (h : heap.Grows heap') (hd : d < heap.size) : heap'.root d = heap.root d := by
  simp only [root, h.chain_eq hd]

/-! ### Well-formed heaps -/

/-- The first heap is well formed. -/
theorem wellFormed_initial : Heap.initial.WellFormed := by
  refine ⟨Nat.zero_lt_one, rfl, ?_, ?_⟩
  · intro d hd hne
    exact absurd (Nat.lt_one_iff.1 hd) hne
  · intro d name v hget
    rw [bindings_initial, Bindings.get?_empty] at hget
    cases hget

/-- A definition of a value that closes over scopes of the heap keeps the heap well formed. -/
theorem WellFormed.define (hheap : heap.WellFormed) {v : Value} (id : ScopeId) (name : String)
    (hv : ∀ c ∈ v.closures, c < heap.size) : (heap.define id name v).WellFormed := by
  refine ⟨?_, ?_, ?_, ?_⟩
  · rw [size_define]
    exact hheap.root_lt
  · rw [link?_define]
    exact hheap.link?_root
  · intro d hd hne
    rw [size_define] at hd
    rw [link?_define]
    exact hheap.link?_lt d hd hne
  · intro d name' w hget
    rw [size_define]
    exact forall_define (hheap.closures_lt _ _ _) hv hget

/-- A new scope is linked to one that was made before it. -/
theorem WellFormed.spawn (hheap : heap.WellFormed) {closure : ScopeId}
    (hclosure : closure < heap.size) : (heap.spawn closure).2.WellFormed := by
  refine ⟨?_, ?_, ?_, ?_⟩
  · rw [size_spawn]
    exact Nat.lt_succ_of_lt hheap.root_lt
  · rw [link?_spawn_of_lt hheap.root_lt]
    exact hheap.link?_root
  · intro d hd hne
    rw [size_spawn] at hd
    rcases Nat.lt_succ_iff_lt_or_eq.1 hd with hd | rfl
    · rw [link?_spawn_of_lt hd]
      exact hheap.link?_lt d hd hne
    · rw [link?_spawn, if_pos rfl]
      exact ⟨closure, rfl, hclosure⟩
  · intro d name v hget c hc
    rw [bindings_spawn] at hget
    rw [size_spawn]
    exact Nat.lt_succ_of_lt (hheap.closures_lt d name v hget c hc)

end Heap

/-- Well-formed heaps that grow: every scope that exists may be used. -/
def ScopeDiscipline.growing : ScopeDiscipline where
  heapOk := Heap.WellFormed
  scopeOk heap d := d < heap.size
  change _ := Heap.Grows
  change_refl _ := Heap.Grows.refl
  change_trans := Heap.Grows.trans
  scope_mono hgrows hd := Nat.lt_of_lt_of_le hd hgrows.size_le
  binding hheap _ _ hget := hheap.closures_lt _ _ _ hget
  define name hheap _ _ hv := ⟨hheap.define _ name hv, Heap.grows_define _ _ name _⟩
  spawn := by
    intro heap closure hheap hclosure
    refine ⟨hheap.spawn hclosure, ?_⟩
    rw [Heap.size_spawn]
    exact Nat.lt_succ_self _
  change_of_call := by
    intro heap heap' closure _ hgrows
    exact (Heap.grows_spawn heap closure).trans hgrows

/-- **The heap of scopes only grows and stays well formed.** Let a value be evaluated in a scope of a
well-formed heap, and let it close over scopes of that heap only. If the evaluation finishes, the final
heap is well formed. It still has all scopes of the first one, with the same links, and so with the same
depth and the same root; each of them still binds all names that it bound; and the result closes over
scopes of the final heap only. -/
theorem heap_grows_and_stays_well_formed {heap heap' : Heap} {scope : ScopeId} {v r : Value}
    (hheap : heap.WellFormed) (hscope : scope < heap.size)
    (hv : ∀ c ∈ v.closures, c < heap.size) (h : Finishes heap scope v r heap') :
    heap'.WellFormed ∧ heap.Grows heap' ∧
      (∀ d, d < heap.size → heap'.depth d = heap.depth d ∧ heap'.root d = heap.root d) ∧
      ∀ c ∈ r.closures, c < heap'.size := by
  have hkeeps := ScopeDiscipline.growing.toDiscipline.reduces h.reduces hheap hscope hv
  have hgrows : heap.Grows heap' := hkeeps.change
  exact ⟨hkeeps.heapOk, hgrows, fun d hd => ⟨hgrows.depth_eq hd, hgrows.root_eq hd⟩,
    hkeeps.resultOk⟩

/-- A function that closes over the very scope in which it is bound makes a lambda, which closes over
the scope of the call. -/
theorem lambda_of_a_call_closes_over_it :
    let f : Value := .lambda ⟨["x"], none⟩ [.symbol "\\", .qexpr [.symbol "y"], .qexpr [.symbol "x"]] 1
    let heap := (Heap.initial.spawn 0).2.define 1 "f" f
    let r : Value := .lambda ⟨["y"], none⟩ [.symbol "x"] 2
    heap.WellFormed ∧ 1 < heap.size ∧ ∃ heap',
      Finishes heap 1 (.sexpr [.symbol "f", .integer 5]) r heap' ∧ heap'.WellFormed ∧
      heap.Grows heap' ∧ heap'.depth 1 = heap.depth 1 ∧ ∀ c ∈ r.closures, c < heap'.size := by
  intro f heap r
  have hheap : heap.WellFormed :=
    (Heap.wellFormed_initial.spawn Nat.zero_lt_one).define 1 "f" (by decide)
  have hscope : 1 < heap.size := by decide
  have hfinishes : Finishes heap 1 (.sexpr [.symbol "f", .integer 5]) r
      ((heap.spawn 1).2.define 2 "x" (.integer 5)) := ⟨2, by cbv⟩
  obtain ⟨hheap', hgrows, hplace, hr⟩ :=
    heap_grows_and_stays_well_formed hheap hscope (by simp) hfinishes
  exact ⟨hheap, hscope, _, hfinishes, hheap', hgrows, (hplace 1 hscope).1, hr⟩

end QuoteLisp
