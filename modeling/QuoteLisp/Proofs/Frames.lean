import Mathlib
import QuoteLisp.Proofs.Sessions

/-!
# What evaluation writes to

Definitions go to the scope at hand or to the root, and a call works in a scope of its own. So when
all scopes lie around one root, what an evaluation does to the scopes that were there before is
confined to two of them: the scope it happens in and the root. The application of a lambda is
confined to the root alone, since the scope in which its body is reduced is new. In particular the
scope of a call that has returned is out of reach for every later line at the root, even when a
closure keeps it alive.
-/

set_option autoImplicit false

namespace QuoteLisp

namespace Heap

/-- A heap of scopes around one root, in which names are bound to values that close over these
scopes. -/
structure Rooted (heap : Heap) (root : ScopeId) : Prop where
  root_lt : root < heap.size
  root_eq : ∀ d, d < heap.size → heap.root d = root
  closures_lt : ∀ d name v, (heap.bindings d).get? name = some v → ∀ c ∈ v.closures, c < heap.size

/-- What an evaluation may do to a heap of scopes around a root: it adds scopes, leaves the old ones
where they lie, and changes the bindings of the scope at hand and of the root, but of no other. -/
structure Confined (root scope : ScopeId) (heap heap' : Heap) : Prop where
  size_le : heap.size ≤ heap'.size
  parent?_eq : ∀ d, d < heap.size → heap'.parent? d = heap.parent? d
  bindings_eq : ∀ d, d < heap.size → d ≠ scope → d ≠ root → heap'.bindings d = heap.bindings d

variable {heap heap' : Heap} {root scope : ScopeId}

/-- The first heap lies around its global scope. -/
theorem rooted_initial : Heap.initial.Rooted Heap.globalId := by
  refine ⟨Nat.zero_lt_one, ?_, ?_⟩
  · intro d hd
    have hd : d = 0 := Nat.lt_one_iff.1 hd
    rw [hd]
    exact root_of_no_parent rfl
  · intro d name v hget
    rw [bindings_initial, Bindings.get?_empty] at hget
    cases hget

/-- A definition of a value that closes over scopes of the heap keeps the heap around its root. -/
theorem Rooted.define (hheap : heap.Rooted root) {d : ScopeId} {v : Value} (name : String)
    (hv : ∀ c ∈ v.closures, c < heap.size) : (heap.define d name v).Rooted root := by
  refine ⟨?_, ?_, ?_⟩
  · rw [size_define]
    exact hheap.root_lt
  · intro d' hd'
    rw [size_define] at hd'
    rw [root_define]
    exact hheap.root_eq d' hd'
  · intro d' name' w hget
    rw [size_define]
    rcases get?_define heap d name v d' name' hget with ⟨rfl, -⟩ | hget
    · exact hv
    · exact hheap.closures_lt d' name' w hget

/-- A new scope in one of the heap lies around the same root. -/
theorem Rooted.spawn (hheap : heap.Rooted root) {closure : ScopeId} (hclosure : closure < heap.size) :
    (heap.spawn closure).2.Rooted root := by
  refine ⟨?_, ?_, ?_⟩
  · rw [size_spawn]
    exact Nat.lt_succ_of_lt hheap.root_lt
  · intro d hd
    rw [size_spawn] at hd
    rcases Nat.lt_succ_iff_lt_or_eq.1 hd with hd | rfl
    · rw [root_spawn_of_lt hd]
      exact hheap.root_eq d hd
    · rw [root_spawn_size hclosure]
      exact hheap.root_eq closure hclosure
  · intro d name v hget c hc
    rw [bindings_spawn] at hget
    rw [size_spawn]
    exact Nat.lt_succ_of_lt (hheap.closures_lt d name v hget c hc)

/-- Doing nothing is confined. -/
theorem Confined.refl (root scope : ScopeId) (heap : Heap) : Confined root scope heap heap :=
  ⟨Nat.le_refl _, fun _ _ => rfl, fun _ _ _ _ => rfl⟩

/-- Confined changes one after the other are confined. -/
theorem Confined.trans {heap₁ heap₂ heap₃ : Heap} (h₁ : Confined root scope heap₁ heap₂)
    (h₂ : Confined root scope heap₂ heap₃) : Confined root scope heap₁ heap₃ := by
  refine ⟨Nat.le_trans h₁.size_le h₂.size_le, ?_, ?_⟩
  · intro d hd
    rw [h₂.parent?_eq d (Nat.lt_of_lt_of_le hd h₁.size_le), h₁.parent?_eq d hd]
  · intro d hd hscope hroot
    rw [h₂.bindings_eq d (Nat.lt_of_lt_of_le hd h₁.size_le) hscope hroot,
      h₁.bindings_eq d hd hscope hroot]

/-- A definition in the scope at hand or in the root is confined. -/
theorem confined_define {d : ScopeId} (hd : d = scope ∨ d = root) (heap : Heap) (name : String)
    (v : Value) : Confined root scope heap (heap.define d name v) := by
  refine ⟨Nat.le_of_eq (size_define heap d name v).symm, ?_, ?_⟩
  · intro d' _
    exact parent?_define heap d name v d'
  · intro d' _ hscope hroot
    have hne : d' ≠ d := by
      rcases hd with rfl | rfl
      · exact hscope
      · exact hroot
    exact bindings_define_of_ne hne heap name v

/-- What is confined to the scope of a call and the root is confined to the root for the caller. -/
theorem Confined.of_call {closure : ScopeId} (scope : ScopeId)
    (h : Confined root heap.size (heap.spawn closure).2 heap') : Confined root scope heap heap' := by
  have hsize := size_spawn heap closure
  refine ⟨?_, ?_, ?_⟩
  · have hle := h.size_le
    omega
  · intro d hd
    rw [h.parent?_eq d (by omega), parent?_spawn_of_lt hd]
  · intro d hd _ hroot
    rw [h.bindings_eq d (by omega) (Nat.ne_of_lt hd) hroot, bindings_spawn]

end Heap

/-- Scopes around one root: each of them may be used, and changes are confined. -/
def ScopeDiscipline.rooted (root : ScopeId) : ScopeDiscipline where
  heapOk heap := heap.Rooted root
  scopeOk heap d := d < heap.size
  change := Heap.Confined root
  change_refl := Heap.Confined.refl root
  change_trans := Heap.Confined.trans
  scope_mono hchange hd := Nat.lt_of_lt_of_le hd hchange.size_le
  binding hheap _ _ hget := hheap.closures_lt _ _ _ hget
  define := by
    intro heap scope d v name hheap hscope hd hv
    rw [hheap.root_eq scope hscope] at hd
    exact ⟨hheap.define name hv, Heap.confined_define hd heap name v⟩
  spawn := by
    intro heap closure hheap hclosure
    refine ⟨hheap.spawn hclosure, ?_⟩
    rw [Heap.size_spawn]
    exact Nat.lt_succ_self _
  change_of_call scope h := h.of_call scope

/-- Values that close over scopes around one root, and changes that are confined. -/
def Discipline.rooted (root : ScopeId) : Discipline :=
  (ScopeDiscipline.rooted root).toDiscipline

section

variable {heap heap' : Heap} {root scope : ScopeId}

/-- An evaluation writes to the scope at hand and to the root. -/
theorem Finishes.confined {v r : Value} (h : Finishes heap scope v r heap')
    (hheap : heap.Rooted root) (hscope : scope < heap.size) (hv : ∀ c ∈ v.closures, c < heap.size) :
    heap'.Rooted root ∧ Heap.Confined root scope heap heap' := by
  have hkeeps := (Discipline.rooted root).reduces h.reduces hheap hscope hv
  exact ⟨hkeeps.heapOk, hkeeps.change⟩

/-- Arguments that close over scopes of the heap are in order for a call. -/
theorem argsOk_of_closures {f : Value} {args : List Value}
    (hclosures : ∀ v ∈ f :: args, ∀ c ∈ v.closures, c < heap.size) :
    (Discipline.rooted root).ArgsOk heap args := fun arg harg =>
  ⟨hclosures arg (List.mem_cons_of_mem _ harg), trivial⟩

/-- The application of a lambda writes to the root only, as the confinement to any scope tells. -/
theorem FinishesCall.confined {closure : ScopeId} {formals : Formals} {body args : List Value}
    {r : Value} (h : FinishesCall heap scope (.lambda formals body closure) args r heap')
    (hheap : heap.Rooted root)
    (hclosures : ∀ v ∈ Value.lambda formals body closure :: args, ∀ c ∈ v.closures, c < heap.size)
    (scope' : ScopeId) : heap'.Rooted root ∧ Heap.Confined root scope' heap heap' := by
  have hlambda := hclosures _ List.mem_cons_self
  have hkeeps := (Discipline.rooted root).applies_lambda h.applies hheap hlambda
    (argsOk_of_closures hclosures) scope'
  exact ⟨hkeeps.heapOk, hkeeps.change⟩

/-- The scope of a call is there when the call returns. -/
theorem FinishesCall.frame_lt {closure frame : ScopeId} {formals : Formals} {body args : List Value}
    {r : Value} {heap₁ : Heap}
    (h : FinishesCall heap scope (.lambda formals body closure) args r heap')
    (hheap : heap.Rooted root)
    (hclosures : ∀ v ∈ Value.lambda formals body closure :: args, ∀ c ∈ v.closures, c < heap.size)
    (henter : heap.enter closure formals args = .ok (frame, heap₁)) : frame < heap'.size := by
  have hargs : (Discipline.rooted root).ArgsOk heap args :=
    argsOk_of_closures hclosures
  cases h.applies with
  | mismatched hrefused =>
      rw [henter] at hrefused
      cases hrefused
  | enters henter' hbody =>
      rw [henter] at henter'
      cases henter'
      obtain ⟨hheap₁, hframe, hsource, -⟩ :=
        Discipline.enter hheap (hclosures _ List.mem_cons_self) hargs henter
      have hkeeps := Discipline.reduces _ hbody hheap₁ hframe hsource
      exact Nat.lt_of_lt_of_le hframe hkeeps.change.size_le
  | notFunction hfunction => cases hfunction

/-- Lines at the root write to the root only. -/
theorem Session.Runs.confined {lines : List (List Char)} (h : Session.Runs root heap lines heap')
    (hheap : heap.Rooted root) : heap'.Rooted root ∧ Heap.Confined root root heap heap' := by
  have hplain : ∀ {heap : Heap} {v : Value}, v.Plain → ∀ c ∈ v.closures, c < heap.size := by
    intro heap v hv c hc
    rw [hv.closures_eq_nil] at hc
    cases hc
  exact (Discipline.rooted root).runs hplain hheap hheap.root_lt h

end

/-- **Evaluation writes to the scope at hand and to the root.** In a heap of scopes around one root,
whose bindings close over these scopes only, an evaluation that finishes leaves the bindings of all
scopes that were there alone, except for those of the scope at hand and of the root. The application
of a lambda leaves alone all but those of the root: those of the caller's scope and of the scope that
the lambda closes over too. Lines that are evaluated at the root afterwards change nothing in the
scope of the call, and, in general, nothing in any scope but the root. -/
theorem evaluation_writes_to_scope_and_root {heap : Heap} {root : ScopeId}
    (hheap : heap.Rooted root) :
    (∀ {scope : ScopeId} {v r : Value} {heap' : Heap}, scope < heap.size →
      (∀ c ∈ v.closures, c < heap.size) → Finishes heap scope v r heap' →
      heap'.Rooted root ∧
      ∀ d, d < heap.size → d ≠ scope → d ≠ root → heap'.bindings d = heap.bindings d) ∧
    (∀ {scope closure : ScopeId} {formals : Formals} {body args : List Value} {r : Value}
      {heap' : Heap},
      (∀ v ∈ Value.lambda formals body closure :: args, ∀ c ∈ v.closures, c < heap.size) →
      FinishesCall heap scope (.lambda formals body closure) args r heap' →
      heap'.Rooted root ∧
      (∀ d, d < heap.size → d ≠ root → heap'.bindings d = heap.bindings d) ∧
      ∀ {frame : ScopeId} {heap₁ heap'' : Heap} {lines : List (List Char)},
        heap.enter closure formals args = .ok (frame, heap₁) →
        Session.Runs root heap' lines heap'' →
        heap''.bindings frame = heap'.bindings frame) ∧
    (∀ {lines : List (List Char)} {heap' : Heap},
      Session.Runs root heap lines heap' →
      heap'.Rooted root ∧
      ∀ d, d < heap.size → d ≠ root → heap'.bindings d = heap.bindings d) := by
  refine ⟨?_, ?_, ?_⟩
  · intro scope v r heap' hscope hv hfinishes
    obtain ⟨hheap', hconfined⟩ := hfinishes.confined hheap hscope hv
    exact ⟨hheap', hconfined.bindings_eq⟩
  · intro scope closure formals body args r heap' hclosures hcall
    -- the root is a scope like any other here: nothing but the root is written to
    obtain ⟨hheap', hconfined⟩ := hcall.confined hheap hclosures root
    refine ⟨hheap', fun d hd hne => hconfined.bindings_eq d hd hne hne, ?_⟩
    intro frame heap₁ heap'' lines henter hruns
    obtain ⟨-, hlines⟩ := hruns.confined hheap'
    -- the scope of the call is new, and it is there when the call returns
    obtain ⟨entries, -, rfl, -⟩ := Heap.enter_eq_ok_iff.1 henter
    have hne : heap.size ≠ root := Nat.ne_of_gt hheap.root_lt
    have hframe : heap.size < heap'.size := hcall.frame_lt hheap hclosures henter
    exact hlines.bindings_eq heap.size hframe hne hne
  · intro lines heap' hruns
    obtain ⟨hheap', hconfined⟩ := hruns.confined hheap
    exact ⟨hheap', fun d hd hne => hconfined.bindings_eq d hd hne hne⟩

/-- A lambda that closes over the scope of an earlier call assigns to a name of that scope. It is its
own scope that it writes to, and a later line at the root does not change that one. -/
theorem assignment_in_call_stays_there :
    let heap := (Heap.initial.spawn 0).2.define 1 "x" (.integer 1)
    let f : Value := .lambda ⟨["y"], none⟩ [.symbol "=", .qexpr [.symbol "x"], .symbol "y"] 1
    heap.Rooted 0 ∧ ∃ heap' heap'', FinishesCall heap 0 f [.integer 5] .unit heap' ∧
      Session.Runs 0 heap' ["= \x7by\x7d 7".toList] heap'' ∧
      heap'.bindings 1 = heap.bindings 1 ∧ heap''.bindings 2 = heap'.bindings 2 := by
  intro heap f
  let heap' := ((heap.spawn 1).2.define 2 "y" (.integer 5)).define 2 "x" (.integer 5)
  have hheap : heap.Rooted 0 :=
    (Heap.rooted_initial.spawn Nat.zero_lt_one).define "x" (by simp)
  have hclosures : ∀ v ∈ f :: [.integer 5], ∀ c ∈ v.closures, c < heap.size := by decide
  have hcall : FinishesCall heap 0 f [.integer 5] .unit heap' := ⟨4, by cbv⟩
  have hline : Session.evalLine 4 heap' 0 "= \x7by\x7d 7".toList =
      some (.ok .unit, heap'.define 0 "y" (.integer 7)) := by cbv
  have hruns := Session.Runs.cons hline .nil
  obtain ⟨-, hbindings, hlater⟩ := (evaluation_writes_to_scope_and_root hheap).2.1 hclosures hcall
  exact ⟨hheap, heap', _, hcall, hruns, hbindings 1 (by decide) (by decide), hlater rfl hruns⟩

end QuoteLisp
