import QuoteLisp.Heap.Lemmas

/-!
# Scopes along a computation

A computation changes a heap by definitions and by new scopes for calls. The scope of a call is a
scope that binds nothing, followed by one definition for each parameter (`enter_eq_ok_iff`), so that
a heap only ever changes by `define` and `spawn`, and all that is to be shown of a change is to be
shown of these two. Roots and chains are told by the enclosing scopes alone, and neither of the two
moves an old scope.
-/

set_option autoImplicit false

namespace QuoteLisp

namespace Heap

variable {heap heap' : Heap} {id d : ScopeId}

/-! ### Chains and roots -/

/-- The chain of a scope goes on with that of the scope around it. -/
theorem chain_of_parent {parent : ScopeId} (h : heap.parent? id = some parent) :
    heap.chain id = id :: heap.chain parent := by
  rw [chain]
  split
  · next hnone => simp [hnone] at h
  · next parent' hsome =>
      rw [hsome] at h
      rw [Option.some.inj h]

/-- The chain of a scope with nothing around it is the scope alone. -/
theorem chain_of_no_parent (h : heap.parent? id = none) : heap.chain id = [id] := by
  rw [chain]
  split
  · rfl
  · next parent hsome => simp [hsome] at h

/-- A scope has the root of the scope around it. -/
theorem root_of_parent {parent : ScopeId} (h : heap.parent? id = some parent) :
    heap.root id = heap.root parent := by
  simp only [root, chain_of_parent h, List.getLast_cons (heap.chain_ne_nil parent)]

/-- A scope with nothing around it is its own root. -/
theorem root_of_no_parent (h : heap.parent? id = none) : heap.root id = id := by
  simp only [root, chain_of_no_parent h, List.getLast_singleton]

/-- The chain of a scope has its root. -/
theorem root_mem_chain (heap : Heap) (id : ScopeId) : heap.root id ∈ heap.chain id :=
  List.getLast_mem (heap.chain_ne_nil id)

/-- Roots are told by the enclosing scopes alone. -/
theorem root_congr (h : ∀ d, d ≤ id → heap'.parent? d = heap.parent? d) :
    heap'.root id = heap.root id := by
  simp only [root, chain_congr h]

/-- A set of scopes that contains the scopes around its members contains their chains. -/
theorem mem_of_mem_chain {S : ScopeId → Prop}
    (hS : ∀ d parent, S d → heap.parent? d = some parent → S parent) (hid : S id)
    (hd : d ∈ heap.chain id) : S d := by
  induction id using Nat.strongRecOn with
  | ind id ih =>
      cases hparent : heap.parent? id with
      | none =>
          rw [chain_of_no_parent hparent, List.mem_singleton] at hd
          rw [hd]
          exact hid
      | some parent =>
          rw [chain_of_parent hparent] at hd
          rcases List.mem_cons.1 hd with rfl | hd
          · exact hid
          · exact ih parent (parent?_lt hparent) (hS id parent hid hparent) hd

/-- A number that no scope has stands for nothing. -/
theorem bindings_of_size_le (h : heap.size ≤ id) : heap.bindings id = .empty := by
  have hnone : heap.scopes[id]? = none := Array.getElem?_eq_none h
  simp only [bindings, hnone]

/-- A scope that is not made yet lies in no other. -/
theorem parent?_of_size_le (h : heap.size ≤ id) : heap.parent? id = none := by
  have hnone : heap.scopes[id]? = none := Array.getElem?_eq_none h
  simp only [parent?, hnone, Option.bind_none, Option.filter_none]

/-- The first heap binds nothing. -/
@[simp]
theorem bindings_initial (id : ScopeId) : initial.bindings id = .empty := by
  unfold bindings initial
  cases id <;> rfl

/-! ### Definitions -/

/-- A definition changes no root. -/
@[simp]
theorem root_define (heap : Heap) (id : ScopeId) (name : String) (v : Value) (other : ScopeId) :
    (heap.define id name v).root other = heap.root other :=
  root_congr fun d _ => parent?_define heap id name v d

/-- What is bound after a definition is the new value in its scope or was bound before. -/
theorem get?_define (heap : Heap) (id : ScopeId) (name : String) (v : Value) (other : ScopeId)
    (name' : String) {w : Value}
    (h : ((heap.define id name v).bindings other).get? name' = some w) :
    (w = v ∧ other = id) ∨ (heap.bindings other).get? name' = some w := by
  rw [bindings_define] at h
  split at h
  · next hcond =>
      rw [Bindings.get?_insert] at h
      split at h
      · exact .inl ⟨(Option.some.inj h).symm, hcond.1⟩
      · rw [hcond.1]
        exact .inr h
  · exact .inr h

/-- What holds of all that is bound and of one more value holds after that is bound too. -/
theorem forall_define {P : Value → Prop} {name : String} {v : Value}
    (hheap : ∀ {d name w}, (heap.bindings d).get? name = some w → P w) (hv : P v) {other : ScopeId}
    {name' : String} {w : Value}
    (hget : ((heap.define id name v).bindings other).get? name' = some w) : P w := by
  rcases get?_define heap id name v other name' hget with ⟨rfl, -⟩ | hget
  · exact hv
  · exact hheap hget

/-- A definition leaves the bindings of every other scope alone. -/
theorem bindings_define_of_ne (h : d ≠ id) (heap : Heap) (name : String) (v : Value) :
    (heap.define id name v).bindings d = heap.bindings d := by
  rw [bindings_define, if_neg fun hcond => h hcond.1]

/-! ### The scopes of calls -/

/-- A new scope makes the heap larger by one. -/
@[simp]
theorem size_spawn (heap : Heap) (parent : ScopeId) : (heap.spawn parent).2.size = heap.size + 1 :=
  size_push heap _

/-- The new scope binds nothing, and the old ones what they bound. -/
@[simp]
theorem bindings_spawn (heap : Heap) (parent id : ScopeId) :
    (heap.spawn parent).2.bindings id = heap.bindings id := by
  have hpush := bindings_push heap (.fresh (some parent)) id
  split at hpush
  · next heq => rw [spawn, hpush, bindings_of_size_le (Nat.le_of_eq heq.symm), Scope.fresh]
  · exact hpush

/-- A new scope lies in the one that it was made for, if that exists, and the old ones where they
lay. -/
theorem parent?_spawn (heap : Heap) (parent id : ScopeId) :
    (heap.spawn parent).2.parent? id =
      if id = heap.size then (some parent).filter (· < heap.size) else heap.parent? id :=
  parent?_push heap _ id

/-- A new scope leaves the old ones where they lie. -/
theorem parent?_spawn_of_lt {parent : ScopeId} (h : d < heap.size) :
    (heap.spawn parent).2.parent? d = heap.parent? d := by
  rw [parent?_spawn, if_neg (Nat.ne_of_lt h)]

/-- A new scope changes no root of an old one. -/
theorem root_spawn_of_lt {parent : ScopeId} (h : d < heap.size) :
    (heap.spawn parent).2.root d = heap.root d :=
  root_congr fun _ hle => parent?_spawn_of_lt (Nat.lt_of_le_of_lt hle h)

/-- The root around the new scope is the root around the scope it lies in. -/
theorem root_spawn_size {parent : ScopeId} (h : parent < heap.size) :
    (heap.spawn parent).2.root heap.size = heap.root parent := by
  have hparent : (heap.spawn parent).2.parent? heap.size = some parent := by
    rw [parent?_spawn, if_pos rfl]
    simp [h]
  rw [root_of_parent hparent, root_spawn_of_lt h]

/-- A scope that is made with a definition is one that is made and then defined in. -/
theorem push_define (heap : Heap) (scope : Scope) (name : String) (v : Value) :
    (heap.push (scope.define name v)).2 = (heap.push scope).2.define heap.size name v := by
  simp only [push, define, size]
  congr 1
  apply Array.ext_getElem?
  intro i
  rw [Array.getElem?_modify, Array.getElem?_push, Array.getElem?_push]
  grind

/-- A scope that is made with entries is one that is made and then defined in. -/
theorem push_defineAll (heap : Heap) (scope : Scope) (entries : List (String × Value)) :
    (heap.push (scope.defineAll entries)).2 =
      (heap.push scope).2.defineAll heap.size entries := by
  induction entries generalizing scope with
  | nil => rfl
  | cons entry entries ih =>
      simp only [Scope.defineAll, defineAll, List.foldl_cons] at ih ⊢
      rw [ih, push_define]

/-- The scope of a call is a new scope in the one that the function closes over, with one definition
for each parameter. -/
theorem enter_eq_ok_iff {closure frame : ScopeId} {formals : Formals} {args : List Value} :
    heap.enter closure formals args = .ok (frame, heap') ↔
      ∃ entries, Formals.matchArgs formals.rest formals.positional args = .ok entries ∧
        frame = heap.size ∧ heap' = (heap.spawn closure).2.defineAll heap.size entries := by
  unfold enter
  constructor
  · intro h
    split at h
    · next entries hentries =>
        cases h
        exact ⟨entries, hentries, rfl, push_defineAll heap _ entries⟩
    · cases h
  · rintro ⟨entries, hentries, rfl, rfl⟩
    rw [hentries]
    exact congrArg (fun heap' => Except.ok (heap.size, heap')) (push_defineAll heap _ entries)

end Heap

/-- A parameter is bound to an argument or to a list of arguments. -/
theorem Formals.mem_of_matchArgs {rest : Option String} {names : List String} {args : List Value}
    {entries : List (String × Value)} (h : matchArgs rest names args = .ok entries)
    {entry : String × Value} (hentry : entry ∈ entries) :
    entry.2 ∈ args ∨ ∃ items, entry.2 = .qexpr items ∧ ∀ item ∈ items, item ∈ args := by
  induction names generalizing args entries with
  | nil =>
      unfold matchArgs at h
      split at h
      · cases h
        rw [List.mem_singleton.1 hentry]
        exact .inr ⟨args, rfl, fun item hitem => hitem⟩
      · cases h
        cases hentry
      · cases h
  | cons name names ih =>
      cases args with
      | nil => cases h
      | cons v args =>
          unfold matchArgs at h
          split at h
          · next entries' hentries =>
              cases h
              rcases List.mem_cons.1 hentry with rfl | hentry
              · exact .inl List.mem_cons_self
              · rcases ih hentries hentry with hmem | ⟨items, heq, hitems⟩
                · exact .inl (List.mem_cons_of_mem _ hmem)
                · exact .inr ⟨items, heq, fun item hitem =>
                    List.mem_cons_of_mem _ (hitems item hitem)⟩
          · cases h

/-- A name means what a scope of the chain binds it to, or a builtin function. -/
theorem Heap.lookup_eq_ok {heap : Heap} {scope : ScopeId} {name : String} {v : Value}
    (h : heap.lookup scope name = .ok v) :
    (∃ d ∈ heap.chain scope, (heap.bindings d).get? name = some v) ∨ ∃ b, v = .builtin b := by
  unfold lookup at h
  split at h
  · next hsome =>
      cases h
      exact .inl (List.exists_of_findSome?_eq_some hsome)
  · split at h
    · next b _ =>
        cases h
        exact .inr ⟨b, rfl⟩
    · cases h

/-- What a name means depends on the bindings along the chain only. -/
theorem Heap.lookup_congr {heap heap' : Heap} {scope : ScopeId}
    (hchain : heap'.chain scope = heap.chain scope)
    (hbindings : ∀ d ∈ heap.chain scope, heap'.bindings d = heap.bindings d) (name : String) :
    heap'.lookup scope name = heap.lookup scope name := by
  have hfind : ∀ ds : List ScopeId, (∀ d ∈ ds, heap'.bindings d = heap.bindings d) →
      ds.findSome? (fun d => (heap'.bindings d).get? name) =
        ds.findSome? (fun d => (heap.bindings d).get? name) := by
    intro ds hds
    induction ds with
    | nil => rfl
    | cons d ds ih =>
        simp only [List.findSome?_cons]
        rw [hds d List.mem_cons_self, ih fun d' hd' => hds d' (List.mem_cons_of_mem _ hd')]
  unfold lookup
  rw [hchain, hfind _ hbindings]

end QuoteLisp
