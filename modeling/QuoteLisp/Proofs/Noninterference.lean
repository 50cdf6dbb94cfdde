import Mathlib
import QuoteLisp.Proofs.Discipline

/-!
# What evaluation depends on

Scoping is lexical: a value is reduced with the bindings along the chain of its scope, and the body of
a lambda with those along the chain of the scope that it closes over. So an evaluation sees a set of
scopes that is closed under the way from a scope to the one around it and to the scopes that its
bindings close over. What the scopes outside such a set bind is neither read nor written, and what
they bind in two heaps that agree on the set may differ at will: both heaps give the same result,
gain the same scopes and agree on the set again.

The set is fixed throughout. It holds from the start the numbers that scopes made later will have,
which no scope has yet and no value closes over.
-/

set_option autoImplicit false

namespace QuoteLisp

namespace Heap

/-- A set of scopes that is closed under enclosing scopes and under the scopes that the bindings of
its members close over. -/
structure ClosedUnder (S : ScopeId → Prop) (heap : Heap) : Prop where
  parent_mem : ∀ d parent, S d → heap.parent? d = some parent → S parent
  closure_mem : ∀ d name v, S d → (heap.bindings d).get? name = some v → ∀ c ∈ v.closures, S c

/-- Two heaps of the same scopes, which bind the same within a set of scopes. -/
structure AgreeOn (S : ScopeId → Prop) (heap other : Heap) : Prop where
  size_eq : other.size = heap.size
  parent?_eq : ∀ d, other.parent? d = heap.parent? d
  bindings_eq : ∀ d, S d → other.bindings d = heap.bindings d

variable {S : ScopeId → Prop} {heap heap' other : Heap} {scope : ScopeId}

/-! ### Closed sets -/

/-- A closed set has the whole chain of each of its scopes. -/
theorem ClosedUnder.mem_of_mem_chain (h : heap.ClosedUnder S) (hscope : S scope) {d : ScopeId}
    (hd : d ∈ heap.chain scope) : S d :=
  Heap.mem_of_mem_chain h.parent_mem hscope hd

/-- A definition of a value that closes over members keeps a set closed. -/
theorem ClosedUnder.define (h : heap.ClosedUnder S) {d : ScopeId} {v : Value} (name : String)
    (hv : ∀ c ∈ v.closures, S c) : (heap.define d name v).ClosedUnder S := by
  constructor
  · intro d' parent hd' hparent
    rw [parent?_define] at hparent
    exact h.parent_mem d' parent hd' hparent
  · intro d' name' w hd' hget
    rcases get?_define heap d name v d' name' hget with ⟨rfl, -⟩ | hget
    · exact hv
    · exact h.closure_mem d' name' w hd' hget

/-- A new scope in a member keeps a set closed. -/
theorem ClosedUnder.spawn (h : heap.ClosedUnder S) {closure : ScopeId} (hclosure : S closure) :
    (heap.spawn closure).2.ClosedUnder S := by
  constructor
  · intro d parent hd hparent
    rw [parent?_spawn] at hparent
    split at hparent
    · have heq : closure = parent := Option.some.inj (Option.filter_eq_some_iff.1 hparent).1
      rw [← heq]
      exact hclosure
    · exact h.parent_mem d parent hd hparent
  · intro d name v hd hget
    rw [bindings_spawn] at hget
    exact h.closure_mem d name v hd hget

/-! ### Heaps that agree -/

/-- Agreement is symmetric. -/
theorem AgreeOn.symm (h : AgreeOn S heap other) : AgreeOn S other heap :=
  ⟨h.size_eq.symm, fun d => (h.parent?_eq d).symm, fun d hd => (h.bindings_eq d hd).symm⟩

/-- A set that is closed in one heap is closed in every heap that agrees with it there. -/
theorem AgreeOn.closedUnder (h : AgreeOn S heap other) (hclosed : heap.ClosedUnder S) :
    other.ClosedUnder S := by
  constructor
  · intro d parent hd hparent
    rw [h.parent?_eq] at hparent
    exact hclosed.parent_mem d parent hd hparent
  · intro d name v hd hget
    rw [h.bindings_eq d hd] at hget
    exact hclosed.closure_mem d name v hd hget

/-- Heaps that agree have the same roots. -/
theorem AgreeOn.root (h : AgreeOn S heap other) : other.root scope = heap.root scope :=
  root_congr fun d _ => h.parent?_eq d

/-- A name is looked up from a member to the same value in heaps that agree. -/
theorem AgreeOn.lookup (h : AgreeOn S heap other) (hclosed : heap.ClosedUnder S) (hscope : S scope)
    (name : String) : other.lookup scope name = heap.lookup scope name := by
  have hchain : other.chain scope = heap.chain scope := chain_congr fun d _ => h.parent?_eq d
  refine lookup_congr hchain (fun d hd => ?_) name
  exact h.bindings_eq d (hclosed.mem_of_mem_chain hscope hd)

/-- The same definition in both heaps keeps their agreement. -/
theorem AgreeOn.define (h : AgreeOn S heap other) (d : ScopeId) (name : String) (v : Value) :
    AgreeOn S (heap.define d name v) (other.define d name v) := by
  refine ⟨?_, ?_, ?_⟩
  · simp only [size_define, h.size_eq]
  · intro d'
    simp only [parent?_define, h.parent?_eq]
  · intro d' hd'
    rw [bindings_define, bindings_define, h.size_eq, h.bindings_eq d' hd']
    split
    · next hcond => rw [h.bindings_eq d (hcond.1 ▸ hd')]
    · rfl

/-- The same definitions in both heaps keep their agreement. -/
theorem AgreeOn.defineAll (h : AgreeOn S heap other) (d : ScopeId)
    (entries : List (String × Value)) :
    AgreeOn S (heap.defineAll d entries) (other.defineAll d entries) := by
  induction entries generalizing heap other with
  | nil => exact h
  | cons entry entries ih => exact ih (h.define d entry.1 entry.2)

/-- The same new scope in both heaps keeps their agreement. -/
theorem AgreeOn.spawn (h : AgreeOn S heap other) (closure : ScopeId) :
    AgreeOn S (heap.spawn closure).2 (other.spawn closure).2 := by
  refine ⟨?_, ?_, ?_⟩
  · simp only [size_spawn, h.size_eq]
  · intro d
    rw [parent?_spawn, parent?_spawn, h.size_eq, h.parent?_eq]
  · intro d hd
    rw [bindings_spawn, bindings_spawn, h.bindings_eq d hd]

/-- The same call enters a scope of the same number in both heaps. -/
theorem AgreeOn.enter (h : AgreeOn S heap other) {closure frame : ScopeId} {formals : Formals}
    {args : List Value} (henter : heap.enter closure formals args = .ok (frame, heap')) :
    ∃ other', other.enter closure formals args = .ok (frame, other') ∧ AgreeOn S heap' other' := by
  obtain ⟨entries, hentries, rfl, rfl⟩ := enter_eq_ok_iff.1 henter
  refine ⟨(other.spawn closure).2.defineAll heap.size entries, ?_, ?_⟩
  · rw [enter_eq_ok_iff, h.size_eq]
    exact ⟨entries, hentries, rfl, rfl⟩
  · exact (h.spawn closure).defineAll heap.size entries

/-- A call is refused whatever the heap. -/
theorem enter_error {closure : ScopeId} {formals : Formals} {args : List Value} {fault : Fault}
    (h : heap.enter closure formals args = .error fault) (other : Heap) :
    other.enter closure formals args = .error fault := by
  unfold enter at h ⊢
  split at h
  · cases h
  · exact h

end Heap

/-! ### One run -/

/-- A closed set that has the numbers of all scopes to come: scopes of the set are used only, and
nothing outside it changes. -/
def ScopeDiscipline.within (S : ScopeId → Prop) : ScopeDiscipline where
  heapOk heap := heap.ClosedUnder S ∧ ∀ d, heap.size ≤ d → S d
  scopeOk _ d := S d
  change _ heap heap' :=
    heap.size ≤ heap'.size ∧ ∀ d, ¬ S d → heap'.bindings d = heap.bindings d
  change_refl _ heap := ⟨Nat.le_refl _, fun _ _ => rfl⟩
  change_trans h₁ h₂ :=
    ⟨Nat.le_trans h₁.1 h₂.1, fun d hd => (h₂.2 d hd).trans (h₁.2 d hd)⟩
  scope_mono _ hd := hd
  binding := by
    intro heap scope d name v hheap hscope hd hget
    exact hheap.1.closure_mem d name v (hheap.1.mem_of_mem_chain hscope hd) hget
  define := by
    intro heap scope d v name hheap hscope hd hv
    have hmem : S d := by
      rcases hd with rfl | rfl
      · exact hscope
      · exact hheap.1.mem_of_mem_chain hscope (heap.root_mem_chain scope)
    refine ⟨⟨hheap.1.define name hv, ?_⟩, ?_, ?_⟩
    · rw [Heap.size_define]
      exact hheap.2
    · exact Nat.le_of_eq (Heap.size_define heap d name v).symm
    · intro d' hd'
      have hne : d' ≠ d := fun heq => hd' (heq ▸ hmem)
      exact Heap.bindings_define_of_ne hne heap name v
  spawn := by
    intro heap closure hheap hclosure
    refine ⟨⟨hheap.1.spawn hclosure, ?_⟩, hheap.2 heap.size (Nat.le_refl _)⟩
    intro d hd
    rw [Heap.size_spawn] at hd
    exact hheap.2 d (Nat.le_of_succ_le hd)
  change_of_call := by
    intro heap heap' closure scope h
    rw [Heap.size_spawn] at h
    refine ⟨Nat.le_of_succ_le h.1, ?_⟩
    intro d hd
    rw [h.2 d hd, Heap.bindings_spawn]

/-- What is outside a closed set is neither used nor changed. -/
def Discipline.within (S : ScopeId → Prop) : Discipline :=
  (ScopeDiscipline.within S).toDiscipline

/-! ### Two runs -/

section

variable {S : ScopeId → Prop}

mutual

/-- What reduces in a heap reduces to the same in a heap that agrees with it, and the final heaps
agree again. -/
theorem Reduces.transfer {heap heap' other : Heap} {scope : ScopeId} {v r : Value} :
    Reduces heap scope v r heap' → (Discipline.within S).heapOk heap → S scope →
      (∀ c ∈ v.closures, S c) → Heap.AgreeOn S heap other →
      ∃ other', Reduces other scope v r other' ∧ Heap.AgreeOn S heap' other'
  | .symbol h, hheap, hscope, _, hagree =>
      ⟨other, .symbol ((hagree.lookup hheap.1 hscope _).trans h), hagree⟩
  | .unbound h, hheap, hscope, _, hagree =>
      ⟨other, .unbound ((hagree.lookup hheap.1 hscope _).trans h), hagree⟩
  | .normal h, _, _, _, hagree => ⟨other, .normal h, hagree⟩
  | .single h, hheap, hscope, hv, hagree => by
      have hsource := Value.forall_closures_sexpr.1 hv
      obtain ⟨other', hother, hagree'⟩ :=
        Reduces.transfer h hheap hscope (hsource _ List.mem_cons_self) hagree
      exact ⟨other', .single hother, hagree'⟩
  | .quoted hfirst hquoting hrest happly, hheap, hscope, hv, hagree => by
      have hsource := Value.forall_closures_sexpr.1 hv
      have hfirstOk := hsource _ List.mem_cons_self
      obtain ⟨other₁, hother₁, hagree₁⟩ := Reduces.transfer hfirst hheap hscope hfirstOk hagree
      have hkeeps := (Discipline.within S).reduces hfirst hheap hscope hfirstOk
      obtain ⟨other₂, hother₂, hagree₂⟩ := Applies.transfer happly hkeeps.heapOk hscope
        hkeeps.resultOk (fun arg harg => hsource arg (List.mem_cons_of_mem _ harg)) hagree₁
      exact ⟨other₂, .quoted hother₁ hquoting hrest hother₂, hagree₂⟩
  | .stopped hbefore hhead hfault, hheap, hscope, hv, hagree => by
      have hsource := Value.forall_closures_sexpr.1 hv
      have hbeforeOk := fun item hitem => hsource item (List.mem_append_left _ hitem)
      obtain ⟨other₁, hother₁, hagree₁⟩ :=
        ReducesAll.transfer hbefore hheap hscope hbeforeOk hagree
      obtain ⟨hheap₁, -, -⟩ :=
        (Discipline.within S).reducesAll hbefore hheap hscope hbeforeOk
      obtain ⟨other₂, hother₂, hagree₂⟩ := Reduces.transfer hfault hheap₁ hscope
        (hsource _ (List.mem_append_right _ List.mem_cons_self)) hagree₁
      exact ⟨other₂, .stopped hother₁ hhead hother₂, hagree₂⟩
  | .applied hall hquoting hrest happly, hheap, hscope, hv, hagree => by
      have hsource := Value.forall_closures_sexpr.1 hv
      obtain ⟨other₁, hother₁, hagree₁⟩ := ReducesAll.transfer hall hheap hscope hsource hagree
      obtain ⟨hheap₁, -, hargs⟩ :=
        (Discipline.within S).reducesAll hall hheap hscope hsource
      obtain ⟨other₂, hother₂, hagree₂⟩ := Applies.transfer happly hheap₁ hscope
        (hargs _ List.mem_cons_self).1 (fun arg harg => (hargs arg (List.mem_cons_of_mem _ harg)).1)
        hagree₁
      exact ⟨other₂, .applied hother₁ hquoting hrest hother₂, hagree₂⟩

/-- Items reduce to the same in a heap that agrees, and the final heaps agree. -/
theorem ReducesAll.transfer {heap heap' other : Heap} {scope : ScopeId} {vs ws : List Value} :
    ReducesAll heap scope vs ws heap' → (Discipline.within S).heapOk heap → S scope →
      (∀ v ∈ vs, ∀ c ∈ v.closures, S c) → Heap.AgreeOn S heap other →
      ∃ other', ReducesAll other scope vs ws other' ∧ Heap.AgreeOn S heap' other'
  | .nil, _, _, _, hagree => ⟨other, .nil, hagree⟩
  | .cons hv hw hvs, hheap, hscope, hsource, hagree => by
      have hvOk := hsource _ List.mem_cons_self
      obtain ⟨other₁, hother₁, hagree₁⟩ := Reduces.transfer hv hheap hscope hvOk hagree
      have hkeeps := (Discipline.within S).reduces hv hheap hscope hvOk
      obtain ⟨other₂, hother₂, hagree₂⟩ := ReducesAll.transfer hvs hkeeps.heapOk hscope
        (fun v hv => hsource v (List.mem_cons_of_mem _ hv)) hagree₁
      exact ⟨other₂, .cons hother₁ hw hother₂, hagree₂⟩

/-- A function gives the same in a heap that agrees, and the final heaps agree. -/
theorem Applies.transfer {heap heap' other : Heap} {scope : ScopeId} {f r : Value}
    {args : List Value} :
    Applies heap scope f args r heap' → (Discipline.within S).heapOk heap → S scope →
      (∀ c ∈ f.closures, S c) → (∀ arg ∈ args, ∀ c ∈ arg.closures, S c) →
      Heap.AgreeOn S heap other →
      ∃ other', Applies other scope f args r other' ∧ Heap.AgreeOn S heap' other'
  | .refused h, _, _, _, _, hagree => ⟨other, .refused h, hagree⟩
  | .failed hcheck h, _, _, _, _, hagree => ⟨other, .failed hcheck h, hagree⟩
  | .gives hcheck h, _, _, _, _, hagree => ⟨other, .gives hcheck h, hagree⟩
  | .defines hne hlength, _, _, _, _, hagree =>
      ⟨_, .defines hne hlength, by rw [hagree.root]; exact hagree.defineAll _ _⟩
  | .assigns hne hlength, _, _, _, _, hagree =>
      ⟨_, .assigns hne hlength, hagree.defineAll _ _⟩
  | .evaluates h, hheap, hscope, _, hargs, hagree => by
      have hitems := Value.forall_closures_qexpr.1 (hargs _ List.mem_cons_self)
      obtain ⟨other', hother, hagree'⟩ :=
        Reduces.transfer h hheap hscope (Value.forall_closures_sexpr.2 hitems) hagree
      exact ⟨other', .evaluates hother, hagree'⟩
  | .mismatched h, _, _, _, _, hagree => ⟨other, .mismatched (Heap.enter_error h other), hagree⟩
  | .enters henter h, hheap, _, hf, hargs, hagree => by
      have hargsOk : (Discipline.within S).ArgsOk heap args := fun arg harg =>
        ⟨hargs arg harg, trivial⟩
      obtain ⟨hheap₁, hframe, hbody, -⟩ := Discipline.enter hheap hf hargsOk henter
      obtain ⟨other₁, hother₁, hagree₁⟩ := hagree.enter henter
      obtain ⟨other₂, hother₂, hagree₂⟩ := Reduces.transfer h hheap₁ hframe hbody hagree₁
      exact ⟨other₂, .enters hother₁ hother₂, hagree₂⟩
  | .notFunction h, _, _, _, _, hagree => ⟨other, .notFunction h, hagree⟩

end

end

/-! ### Sets of the scopes that are there -/

namespace Heap

/-- The scopes of a set and those made after a heap. -/
def OrNew (R : ScopeId → Prop) (heap : Heap) (d : ScopeId) : Prop :=
  R d ∨ heap.size ≤ d

variable {R : ScopeId → Prop} {heap other : Heap}

/-- To the members of a closed set the numbers of the scopes to come can be added. -/
theorem ClosedUnder.orNew (h : heap.ClosedUnder R) :
    (Discipline.within (heap.OrNew R)).heapOk heap := by
  refine ⟨⟨?_, ?_⟩, fun d hd => .inr hd⟩
  · intro d parent hd hparent
    rcases hd with hd | hd
    · exact .inl (h.parent_mem d parent hd hparent)
    · rw [parent?_of_size_le hd] at hparent
      cases hparent
  · intro d name v hd hget c hc
    rcases hd with hd | hd
    · exact .inl (h.closure_mem d name v hd hget c hc)
    · rw [bindings_of_size_le hd, Bindings.get?_empty] at hget
      cases hget

/-- Heaps that agree on a set agree on the scopes that are not made yet as well. -/
theorem AgreeOn.orNew (h : AgreeOn R heap other) : AgreeOn (heap.OrNew R) heap other := by
  refine ⟨h.size_eq, h.parent?_eq, ?_⟩
  intro d hd
  rcases hd with hd | hd
  · exact h.bindings_eq d hd
  · rw [bindings_of_size_le hd, bindings_of_size_le (Nat.le_trans (Nat.le_of_eq h.size_eq) hd)]

end Heap

/-- Two computations, one in each of two heaps, that cannot be told apart within a set of scopes:
both finish or none does, with one result, the same new scopes and the same bindings in the set and
in these; and neither changes what was there outside the set. -/
structure SameOutcome (R : ScopeId → Prop) (heap other : Heap) (run run' : Value → Heap → Prop) :
    Prop where
  finishes_iff : ∀ r, (∃ heap', run r heap') ↔ ∃ other', run' r other'
  result_eq : ∀ {r r' heap' other'}, run r heap' → run' r' other' → r' = r
  agreeOn : ∀ {r r' heap' other'}, run r heap' → run' r' other' →
    Heap.AgreeOn (heap.OrNew R) heap' other'
  bindings_eq : ∀ {r heap'}, run r heap' → ∀ d, d < heap.size → ¬ R d →
    heap'.bindings d = heap.bindings d
  bindings_eq' : ∀ {r other'}, run' r other' → ∀ d, d < other.size → ¬ R d →
    other'.bindings d = other.bindings d

/-- One half of this: the first computation is carried over to the other heap. -/
structure CarriesOver (R : ScopeId → Prop) (heap other : Heap) (run run' : Value → Heap → Prop) :
    Prop where
  transfer : ∀ {r heap'}, run r heap' →
    ∃ other', run' r other' ∧ Heap.AgreeOn (heap.OrNew R) heap' other'
  bindings_eq : ∀ {r heap'}, run r heap' → ∀ d, d < heap.size → ¬ R d →
    heap'.bindings d = heap.bindings d

/-- Both halves together, for computations with no more than one outcome. -/
theorem CarriesOver.sameOutcome {R : ScopeId → Prop} {heap other : Heap}
    {run run' : Value → Heap → Prop} (hto : CarriesOver R heap other run run')
    (hback : CarriesOver R other heap run' run)
    (hunique : ∀ {r r' other' other''}, run' r other' → run' r' other'' →
      r' = r ∧ other'' = other') : SameOutcome R heap other run run' := by
  have hsame : ∀ {r r' heap' other'}, run r heap' → run' r' other' →
      r' = r ∧ Heap.AgreeOn (heap.OrNew R) heap' other' := by
    intro r r' heap' other' hrun hrun'
    obtain ⟨other'', hother, hagree⟩ := hto.transfer hrun
    obtain ⟨rfl, rfl⟩ := hunique hother hrun'
    exact ⟨rfl, hagree⟩
  refine ⟨fun r => ⟨?_, ?_⟩, fun h h' => (hsame h h').1, fun h h' => (hsame h h').2,
    hto.bindings_eq, hback.bindings_eq⟩
  · rintro ⟨heap', hrun⟩
    obtain ⟨other', hother, -⟩ := hto.transfer hrun
    exact ⟨other', hother⟩
  · rintro ⟨other', hrun'⟩
    obtain ⟨heap', hheap, -⟩ := hback.transfer hrun'
    exact ⟨heap', hheap⟩

section

variable {R : ScopeId → Prop} {heap heap' other : Heap} {scope : ScopeId}

/-- What is outside a closed set is as it was. -/
theorem Discipline.Keeps.bindings_eq {r : Value}
    (h : (Discipline.within (heap.OrNew R)).Keeps scope heap r heap') {d : ScopeId}
    (hd : d < heap.size) (hR : ¬ R d) : heap'.bindings d = heap.bindings d := by
  refine h.change.2 d ?_
  rintro (hmem | hle)
  · exact hR hmem
  · exact absurd hd (Nat.not_lt.2 hle)

/-- The reduction of a value in a member of a closed set is carried over to every heap that agrees
on the set. -/
theorem Heap.ClosedUnder.carriesOver_finishes (hclosed : heap.ClosedUnder R)
    (hagree : Heap.AgreeOn R heap other) {v : Value} (hscope : R scope)
    (hv : ∀ c ∈ v.closures, R c) :
    CarriesOver R heap other (Finishes heap scope v) (Finishes other scope v) := by
  have hv' : ∀ c ∈ v.closures, heap.OrNew R c := fun c hc => .inl (hv c hc)
  constructor
  · intro r heap' hrun
    obtain ⟨other', hother, hagree'⟩ :=
      hrun.reduces.transfer hclosed.orNew (.inl hscope) hv' hagree.orNew
    exact ⟨other', hother.finishes, hagree'⟩
  · intro r heap' hrun d hd hR
    have hkeeps := (Discipline.within (heap.OrNew R)).reduces hrun.reduces hclosed.orNew
      (.inl hscope) hv'
    exact hkeeps.bindings_eq hd hR

/-- A lambda is applied alike in all scopes. -/
theorem Applies.of_lambda {closure : ScopeId} {formals : Formals} {body args : List Value}
    {r : Value} (h : Applies heap scope (.lambda formals body closure) args r heap')
    (scope' : ScopeId) : Applies heap scope' (.lambda formals body closure) args r heap' := by
  cases h with
  | mismatched h => exact .mismatched h
  | enters henter h => exact .enters henter h
  | notFunction h => cases h

/-- The call of a lambda that closes over a member is carried over, from whatever scope it is made.
-/
theorem Heap.ClosedUnder.carriesOver_call (hclosed : heap.ClosedUnder R)
    (hagree : Heap.AgreeOn R heap other) {closure : ScopeId} {formals : Formals}
    {body args : List Value}
    (hclosures : ∀ v ∈ Value.lambda formals body closure :: args, ∀ c ∈ v.closures, R c)
    (scope : ScopeId) :
    CarriesOver R heap other (FinishesCall heap scope (.lambda formals body closure) args)
      (FinishesCall other scope (.lambda formals body closure) args) := by
  have hlambda : ∀ c ∈ (Value.lambda formals body closure).closures, heap.OrNew R c :=
    fun c hc => .inl (hclosures _ List.mem_cons_self c hc)
  have hargs : ∀ arg ∈ args, ∀ c ∈ arg.closures, heap.OrNew R c :=
    fun arg harg c hc => .inl (hclosures arg (List.mem_cons_of_mem _ harg) c hc)
  have hclosure : heap.OrNew R closure := (Value.forall_closures_lambda.1 hlambda).1
  constructor
  · intro r heap' hrun
    -- the scope of the caller need not be in the set, but that of the lambda is
    obtain ⟨other', hother, hagree'⟩ := (hrun.applies.of_lambda closure).transfer hclosed.orNew
      hclosure hlambda hargs hagree.orNew
    exact ⟨other', (hother.of_lambda scope).finishes, hagree'⟩
  · intro r heap' hrun d hd hR
    have hkeeps := (Discipline.within (heap.OrNew R)).applies_lambda hrun.applies hclosed.orNew
      hlambda (fun arg harg => ⟨hargs arg harg, trivial⟩) closure
    exact hkeeps.bindings_eq hd hR

end

/-! ### Reachable scopes -/

/-- The scopes that can be reached from values: those they close over, and from each the one around
it and those that its bindings close over. -/
inductive Heap.Reachable (heap : Heap) (vs : List Value) : ScopeId → Prop where
  | closure {v : Value} {c : ScopeId} : v ∈ vs → c ∈ v.closures → Reachable heap vs c
  | parent {d parent : ScopeId} : Reachable heap vs d → heap.parent? d = some parent →
      Reachable heap vs parent
  | binding {d c : ScopeId} {name : String} {v : Value} : Reachable heap vs d →
      (heap.bindings d).get? name = some v → c ∈ v.closures → Reachable heap vs c

/-- What can be reached from some values is a closed set. -/
theorem Heap.closedUnder_reachable (heap : Heap) (vs : List Value) :
    heap.ClosedUnder (heap.Reachable vs) :=
  ⟨fun _ _ hd hparent => .parent hd hparent, fun _ _ _ hd hget _ hc => .binding hd hget hc⟩

/-- Heaps that differ in one scope only agree on every set without it. -/
theorem Heap.AgreeOn.of_not_mem {R : ScopeId → Prop} {heap other : Heap} {scope : ScopeId}
    (h : Heap.AgreeOn (· ≠ scope) heap other) (hscope : ¬ R scope) : Heap.AgreeOn R heap other := by
  refine ⟨h.size_eq, h.parent?_eq, ?_⟩
  intro d hd
  have hne : d ≠ scope := fun heq => hscope (heq ▸ hd)
  exact h.bindings_eq d hne

/-- **Scoping is lexical.** Let a set of scopes be closed under enclosing scopes and under the scopes
that bindings of its members close over, and let two heaps of the same scopes agree on it. For every
scope of the set and every value that closes over scopes of the set only, evaluation in the two heaps
has the same outcome. In particular, when two heaps differ in the bindings of one scope only, and that
scope cannot be reached from a lambda and its arguments, then to apply the lambda has the same outcome
in both, also when it is that scope in which the lambda is applied. -/
theorem evaluation_depends_on_closed_scopes :
    (∀ {R : ScopeId → Prop} {heap other : Heap} {scope : ScopeId} {v : Value},
      heap.ClosedUnder R → Heap.AgreeOn R heap other → R scope → (∀ c ∈ v.closures, R c) →
      SameOutcome R heap other (Finishes heap scope v) (Finishes other scope v)) ∧
    (∀ {heap other : Heap} {caller closure : ScopeId} {formals : Formals} {body args : List Value},
      Heap.AgreeOn (· ≠ caller) heap other →
      ¬ heap.Reachable (.lambda formals body closure :: args) caller →
      SameOutcome (heap.Reachable (.lambda formals body closure :: args)) heap other
        (FinishesCall heap caller (.lambda formals body closure) args)
        (FinishesCall other caller (.lambda formals body closure) args)) := by
  constructor
  · intro R heap other scope v hclosed hagree hscope hv
    have hto := hclosed.carriesOver_finishes hagree hscope hv
    have hback := (hagree.closedUnder hclosed).carriesOver_finishes hagree.symm hscope hv
    exact hto.sameOutcome hback Finishes.unique
  · intro heap other caller closure formals body args hdiffer hcaller
    have hclosed := heap.closedUnder_reachable (.lambda formals body closure :: args)
    have hagree := hdiffer.of_not_mem hcaller
    have hclosures : ∀ v ∈ Value.lambda formals body closure :: args, ∀ c ∈ v.closures,
        heap.Reachable (.lambda formals body closure :: args) c :=
      fun v hv c hc => .closure hv hc
    have hto := hclosed.carriesOver_call hagree hclosures caller
    have hback := (hagree.closedUnder hclosed).carriesOver_call hagree.symm hclosures caller
    exact hto.sameOutcome hback FinishesCall.unique

/-- A lambda that closes over the root reads `y` there, whatever its caller binds `y` to, and at the
root nothing of the caller's scope is seen at all. -/
theorem caller_does_not_shadow :
    let base := ((Heap.initial.define 0 "y" (.integer 10)).spawn 0).2
    let heap := base.define 1 "y" (.integer 1)
    let other := base.define 1 "y" (.integer 2)
    let f : Value := .lambda ⟨["x"], none⟩ [.symbol "+", .symbol "x", .symbol "y"] 0
    Heap.AgreeOn (· ≠ 1) heap other ∧ ¬ heap.Reachable [f, .integer 5] 1 ∧
    (∃ other', Finishes other 0 (.sexpr [f, .integer 5]) (.integer 15) other' ∧
      other'.bindings 1 = other.bindings 1) ∧
    (∃ other', FinishesCall other 1 f [.integer 5] (.integer 15) other' ∧
      other'.bindings 1 = other.bindings 1) := by
  intro base heap other f
  have hdiffer : Heap.AgreeOn (· ≠ 1) heap other := by
    refine ⟨rfl, ?_, ?_⟩
    · intro d
      rw [Heap.parent?_define, Heap.parent?_define]
    · intro d hd
      rw [Heap.bindings_define_of_ne hd, Heap.bindings_define_of_ne hd]
  -- the root is reached, and nothing leads away from it
  have hreach : ∀ d, heap.Reachable [f, .integer 5] d → d = 0 := by
    intro d hd
    induction hd with
    | closure hmem hc =>
        have hclosures : ∀ v ∈ [f, .integer 5], ∀ c ∈ v.closures, c = 0 := by decide
        exact hclosures _ hmem _ hc
    | parent _ hparent ih =>
        rw [ih] at hparent
        exact absurd (Heap.parent?_lt hparent) (Nat.not_lt_zero _)
    | @binding d c name v _ hget hc ih =>
        rw [ih, Heap.bindings_define_of_ne (by decide), Heap.bindings_spawn] at hget
        rcases Heap.get?_define _ _ _ _ _ _ hget with ⟨rfl, -⟩ | hget
        · cases hc
        · rw [Heap.bindings_initial, Bindings.get?_empty] at hget
          cases hget
  have hcaller : ¬ heap.Reachable [f, .integer 5] 1 := fun h => absurd (hreach 1 h) (by decide)
  have hroot : heap.Reachable [f, .integer 5] 0 := .closure List.mem_cons_self List.mem_cons_self
  refine ⟨hdiffer, hcaller, ?_, ?_⟩
  · have hclosures : ∀ c ∈ (Value.sexpr [f, .integer 5]).closures, c = 0 := by decide
    have hsame := evaluation_depends_on_closed_scopes.1 (heap.closedUnder_reachable _)
      (hdiffer.of_not_mem hcaller) hroot (fun c hc => hclosures c hc ▸ hroot)
    obtain ⟨other', hother⟩ := (hsame.finishes_iff (.integer 15)).1 ⟨_, 4, by cbv⟩
    exact ⟨other', hother, hsame.bindings_eq' hother 1 (by decide) hcaller⟩
  · have hsame := evaluation_depends_on_closed_scopes.2 hdiffer hcaller
    obtain ⟨other', hother⟩ := (hsame.finishes_iff (.integer 15)).1 ⟨_, 4, by cbv⟩
    exact ⟨other', hother, hsame.bindings_eq' hother 1 (by decide) hcaller⟩

end QuoteLisp
