import QuoteLisp.Proofs.Faults
import QuoteLisp.Proofs.Parts
import QuoteLisp.Proofs.Reduction
import QuoteLisp.Proofs.Scopes

/-!
# What evaluation preserves

Many facts about evaluation have one form: if the heap is in order, and the scope and the value to be
reduced fit into it, then the result fits into the final heap, which is in order again and differs
from the first only in permitted ways. A `Discipline` is such a fact before it is proved: what "in
order", "fits" and "permitted" mean, and that the few primitive steps of evaluation respect it. These
steps are the look-up of a binding, a single definition, a new scope, and the taking apart and putting
together of lists and lambdas.

`Discipline.reduces` is the proof, once for all disciplines, by induction on the rules of reduction.
-/

set_option autoImplicit false

namespace QuoteLisp

/-- What evaluation is to preserve, and why each primitive step does. -/
structure Discipline where
  -- the heaps that are in order
  heapOk : Heap → Prop
  -- the scopes in which values may be reduced
  scopeOk : Heap → ScopeId → Prop
  -- the values that may be reduced
  sourceOk : Heap → Value → Prop
  -- the values that may come out
  resultOk : Heap → Value → Prop
  -- the values among them that may be passed on and bound
  argOk : Value → Prop
  -- what a reduction in a scope may do to a heap
  change : ScopeId → Heap → Heap → Prop
  change_refl : ∀ scope heap, change scope heap heap
  change_trans : ∀ {scope heap₁ heap₂ heap₃},
    change scope heap₁ heap₂ → change scope heap₂ heap₃ → change scope heap₁ heap₃
  -- what fits into a heap still does after a permitted change
  scope_mono : ∀ {scope heap heap' d}, change scope heap heap' → scopeOk heap d → scopeOk heap' d
  source_mono : ∀ {scope heap heap' v},
    change scope heap heap' → sourceOk heap v → sourceOk heap' v
  result_mono : ∀ {scope heap heap' v},
    change scope heap heap' → resultOk heap v → resultOk heap' v
  -- results and sources
  result_of_normal : ∀ {heap v}, sourceOk heap v → v.Normal → resultOk heap v
  arg_of_not_fault : ∀ {v}, v.isFault = false → argOk v
  source_of_result : ∀ {heap v}, resultOk heap v → argOk v → sourceOk heap v
  source_sexpr : ∀ {heap items}, sourceOk heap (.sexpr items) ↔ ∀ v ∈ items, sourceOk heap v
  result_qexpr : ∀ {heap items}, resultOk heap (.qexpr items) ↔ ∀ v ∈ items, sourceOk heap v
  result_lambda : ∀ {heap formals body closure},
    resultOk heap (.lambda formals body closure) ↔
      scopeOk heap closure ∧ (∀ name ∈ formals.names, sourceOk heap (.symbol name)) ∧
        ∀ v ∈ body, sourceOk heap v
  result_integer : ∀ heap n, resultOk heap (.integer n)
  result_fault : ∀ heap cause, cause ≠ .badOp → resultOk heap (.fault cause)
  result_builtin : ∀ heap function, resultOk heap (.builtin function)
  result_calculate : ∀ {heap op args v}, (∀ arg ∈ args, resultOk heap arg) →
    Builtin.calculate op args = .ok (.give v) → resultOk heap v
  result_binding : ∀ {heap scope d name v}, heapOk heap → scopeOk heap scope →
    d ∈ heap.chain scope → (heap.bindings d).get? name = some v → resultOk heap v
  -- the two ways in which a heap changes
  define : ∀ {heap scope d v} (name : String), heapOk heap → scopeOk heap scope →
    d = scope ∨ d = heap.root scope → resultOk heap v → argOk v →
    heapOk (heap.define d name v) ∧ change scope heap (heap.define d name v)
  spawn : ∀ {heap closure}, heapOk heap → scopeOk heap closure →
    heapOk (heap.spawn closure).2 ∧ scopeOk (heap.spawn closure).2 heap.size
  change_of_call : ∀ {heap heap' closure} (scope : ScopeId),
    change heap.size (heap.spawn closure).2 heap' → change scope heap heap'

namespace Discipline

variable (D : Discipline)

/-- What a reduction in a scope preserves: the final heap is in order and has changed as permitted,
and the result fits into it. -/
structure Keeps (scope : ScopeId) (heap : Heap) (r : Value) (heap' : Heap) : Prop where
  heapOk : D.heapOk heap'
  change : D.change scope heap heap'
  resultOk : D.resultOk heap' r

/-- Arguments are results that may be passed on. -/
def ArgsOk (heap : Heap) (args : List Value) : Prop :=
  ∀ arg ∈ args, D.resultOk heap arg ∧ D.argOk arg

variable {D} {heap heap' : Heap} {scope : ScopeId}

/-- Arguments that fit go on fitting while the heap changes as it may. -/
theorem ArgsOk.mono {args : List Value} (hargs : D.ArgsOk heap args)
    (hchange : D.change scope heap heap') : D.ArgsOk heap' args := fun arg harg =>
  ⟨D.result_mono hchange (hargs arg harg).1, (hargs arg harg).2⟩

/-- Arguments that fit may be reduced again. -/
theorem ArgsOk.source {args : List Value} (hargs : D.ArgsOk heap args) {arg : Value}
    (harg : arg ∈ args) : D.sourceOk heap arg :=
  D.source_of_result (hargs arg harg).1 (hargs arg harg).2

/-- A result that fits, in a heap that is left as it was, keeps the discipline. -/
theorem Keeps.refl {r : Value} (hheap : D.heapOk heap) (hr : D.resultOk heap r) :
    D.Keeps scope heap r heap :=
  ⟨hheap, D.change_refl scope heap, hr⟩

/-- What is kept after a change that may happen is kept from before it. -/
theorem Keeps.trans {r : Value} {heap₁ : Heap} (hchange : D.change scope heap heap₁)
    (h : D.Keeps scope heap₁ r heap') : D.Keeps scope heap r heap' :=
  ⟨h.heapOk, D.change_trans hchange h.change, h.resultOk⟩

/-! ### The primitive steps in a row -/

/-- The empty list fits into every heap. -/
theorem result_unit (D : Discipline) (heap : Heap) : D.resultOk heap .unit :=
  D.result_of_normal (D.source_sexpr.2 (by simp)) trivial

/-- What a symbol is bound to fits. -/
theorem result_lookup {name : String} {v : Value} (hheap : D.heapOk heap)
    (hscope : D.scopeOk heap scope) (h : heap.lookup scope name = .ok v) : D.resultOk heap v := by
  rcases Heap.lookup_eq_ok h with ⟨d, hd, hget⟩ | ⟨b, rfl⟩
  · exact D.result_binding hheap hscope hd hget
  · exact D.result_builtin heap b

/-- Several definitions in the scope at hand or in its root. -/
theorem defineAll {d : ScopeId} {entries : List (String × Value)} (hheap : D.heapOk heap)
    (hscope : D.scopeOk heap scope) (hd : d = scope ∨ d = heap.root scope)
    (hentries : ∀ entry ∈ entries, D.resultOk heap entry.2 ∧ D.argOk entry.2) :
    D.heapOk (heap.defineAll d entries) ∧ D.change scope heap (heap.defineAll d entries) := by
  induction entries generalizing heap with
  | nil => exact ⟨hheap, D.change_refl scope heap⟩
  | cons entry entries ih =>
      obtain ⟨hv, harg⟩ := hentries entry List.mem_cons_self
      obtain ⟨hheap₁, hchange⟩ := D.define entry.1 hheap hscope hd hv harg
      have hscope₁ := D.scope_mono hchange hscope
      have hd₁ : d = scope ∨ d = (heap.define d entry.1 entry.2).root scope := by
        rwa [Heap.root_define]
      have hentries₁ : ∀ e ∈ entries,
          D.resultOk (heap.define d entry.1 entry.2) e.2 ∧ D.argOk e.2 := fun e he =>
        ⟨D.result_mono hchange (hentries e (List.mem_cons_of_mem _ he)).1,
          (hentries e (List.mem_cons_of_mem _ he)).2⟩
      obtain ⟨hheap₂, hchange₂⟩ := ih hheap₁ hscope₁ hd₁ hentries₁
      exact ⟨hheap₂, D.change_trans hchange hchange₂⟩

/-- A definition of values that fit, in the scope or its root, keeps the discipline. -/
theorem keeps_defineAll {d : ScopeId} {names : List String} {first : Value} {values : List Value}
    (hheap : D.heapOk heap) (hscope : D.scopeOk heap scope) (hargs : D.ArgsOk heap (first :: values))
    (hd : d = scope ∨ d = heap.root scope) :
    D.Keeps scope heap .unit (heap.defineAll d (names.zip values)) := by
  have hentries : ∀ entry ∈ names.zip values,
      D.resultOk heap entry.2 ∧ D.argOk entry.2 := fun entry hentry =>
    hargs entry.2 (List.mem_cons_of_mem _ (List.of_mem_zip hentry).2)
  obtain ⟨hheap', hchange⟩ := defineAll hheap hscope hd hentries
  exact ⟨hheap', hchange, D.result_unit _⟩

/-- The scope of a call, with its parameters bound: the body may be reduced there, and what it keeps
there is kept in every scope. -/
theorem enter {closure frame : ScopeId} {formals : Formals} {body args : List Value}
    (hheap : D.heapOk heap) (hlambda : D.resultOk heap (.lambda formals body closure))
    (hargs : D.ArgsOk heap args) (h : heap.enter closure formals args = .ok (frame, heap')) :
    D.heapOk heap' ∧ D.scopeOk heap' frame ∧ D.sourceOk heap' (.sexpr body) ∧
      ∀ scope {r heap''}, D.Keeps frame heap' r heap'' → D.Keeps scope heap r heap'' := by
  obtain ⟨entries, hentries, rfl, rfl⟩ := Heap.enter_eq_ok_iff.1 h
  obtain ⟨hclosure, -, hbody⟩ := D.result_lambda.1 hlambda
  obtain ⟨hheap₁, hframe₁⟩ := D.spawn hheap hclosure
  have hspawn : D.change heap.size heap (heap.spawn closure).2 :=
    D.change_of_call _ (D.change_refl _ _)
  have hargs₁ := hargs.mono hspawn
  have hbound : ∀ entry ∈ entries,
      D.resultOk (heap.spawn closure).2 entry.2 ∧ D.argOk entry.2 := by
    intro entry hentry
    rcases Formals.mem_of_matchArgs hentries hentry with hmem | ⟨items, heq, hitems⟩
    · exact hargs₁ entry.2 hmem
    · rw [heq]
      exact ⟨D.result_qexpr.2 fun item hitem => hargs₁.source (hitems item hitem),
        D.arg_of_not_fault rfl⟩
  obtain ⟨hheap₂, hchange⟩ := defineAll hheap₁ hframe₁ (.inl rfl) hbound
  have hbody₂ : ∀ v ∈ body, D.sourceOk _ v := fun v hv =>
    D.source_mono hchange (D.source_mono hspawn (hbody v hv))
  refine ⟨hheap₂, D.scope_mono hchange hframe₁, D.source_sexpr.2 hbody₂, ?_⟩
  intro scope r heap'' hkeeps
  exact ⟨hkeeps.heapOk, D.change_of_call scope (D.change_trans hchange hkeeps.change),
    hkeeps.resultOk⟩

/-- What a builtin function gives fits into the heap when its arguments do. -/
theorem result_perform {b : Builtin} {args : List Value} {v : Value} (hscope : D.scopeOk heap scope)
    (hargs : D.ArgsOk heap args) (h : b.perform scope args = .ok (.give v)) : D.resultOk heap v := by
  -- the items of a list among the arguments
  have hitem : ∀ {list : List Value} {item : Value}, .qexpr list ∈ args → item ∈ list →
      D.sourceOk heap item := fun hlist hmem => D.result_qexpr.1 (hargs _ hlist).1 _ hmem
  cases Builtin.asks_of_perform h with
  | number op v hcalc => exact D.result_calculate (fun arg harg => (hargs arg harg).1) hcalc
  | length n => exact D.result_integer heap n
  | quotation => exact D.result_qexpr.2 fun arg harg => hargs.source harg
  | list _ items hitems =>
      refine D.result_qexpr.2 fun item hmem => ?_
      rcases hitems item hmem with harg | ⟨list, hlist, hmem'⟩
      · exact hargs.source harg
      · exact hitem hlist hmem'
  | lambda formals body hparams hbody =>
      refine D.result_lambda.2 ⟨hscope, fun name hname => ?_, fun v hv => hitem hbody hv⟩
      exact hitem hparams (List.mem_map_of_mem hname)

/-! ### Induction on the rules -/

mutual

/-- The reduction of a value keeps every discipline. -/
theorem reduces (D : Discipline) {heap heap' : Heap} {scope : ScopeId} {v r : Value} :
    Reduces heap scope v r heap' → D.heapOk heap → D.scopeOk heap scope → D.sourceOk heap v →
      D.Keeps scope heap r heap'
  | .symbol h, hheap, hscope, _ => .refl hheap (result_lookup hheap hscope h)
  | .unbound _, hheap, _, _ => .refl hheap (D.result_fault _ _ (by decide))
  | .normal h, hheap, _, hv => .refl hheap (D.result_of_normal hv h)
  | .single h, hheap, hscope, hv => reduces D h hheap hscope (D.source_sexpr.1 hv _ (by simp))
  | .quoted hfirst hquoting _ happly, hheap, hscope, hv => by
      have hitems := D.source_sexpr.1 hv
      have hkeeps := reduces D hfirst hheap hscope (hitems _ List.mem_cons_self)
      obtain ⟨rfl, rfl⟩ := happly.eq_of_isQuoting hquoting
      refine ⟨hkeeps.heapOk, hkeeps.change, D.result_qexpr.2 fun arg harg => ?_⟩
      exact D.source_mono hkeeps.change (hitems arg (List.mem_cons_of_mem _ harg))
  | .stopped hbefore _ hfault, hheap, hscope, hv => by
      have hitems := D.source_sexpr.1 hv
      obtain ⟨hheap₁, hchange, -⟩ := reducesAll D hbefore hheap hscope
        fun item hitem => hitems item (List.mem_append_left _ hitem)
      have hfault₁ := D.source_mono hchange
        (hitems _ (List.mem_append_right _ List.mem_cons_self))
      exact .trans hchange (reduces D hfault hheap₁ (D.scope_mono hchange hscope) hfault₁)
  | .applied hall _ _ happly, hheap, hscope, hv => by
      obtain ⟨hheap₁, hchange, hargs⟩ := reducesAll D hall hheap hscope (D.source_sexpr.1 hv)
      have hf := hargs _ List.mem_cons_self
      exact .trans hchange (applies D happly hheap₁ (D.scope_mono hchange hscope) hf.1
        fun arg harg => hargs arg (List.mem_cons_of_mem _ harg))

/-- The reduction of items one after the other keeps every discipline, and the results may be
arguments. -/
theorem reducesAll (D : Discipline) {heap heap' : Heap} {scope : ScopeId} {vs ws : List Value} :
    ReducesAll heap scope vs ws heap' → D.heapOk heap → D.scopeOk heap scope →
      (∀ v ∈ vs, D.sourceOk heap v) →
      D.heapOk heap' ∧ D.change scope heap heap' ∧ D.ArgsOk heap' ws
  | .nil, hheap, _, _ => ⟨hheap, D.change_refl _ _, by simp [ArgsOk]⟩
  | .cons hv hw hvs, hheap, hscope, hsource => by
      have hkeeps := reduces D hv hheap hscope (hsource _ List.mem_cons_self)
      have hsource₁ := fun v hv =>
        D.source_mono hkeeps.change (hsource v (List.mem_cons_of_mem _ hv))
      obtain ⟨hheap₂, hchange, hargs⟩ :=
        reducesAll D hvs hkeeps.heapOk (D.scope_mono hkeeps.change hscope) hsource₁
      refine ⟨hheap₂, D.change_trans hkeeps.change hchange, fun arg harg => ?_⟩
      rcases List.mem_cons.1 harg with rfl | harg
      · exact ⟨D.result_mono hchange hkeeps.resultOk, D.arg_of_not_fault hw⟩
      · exact hargs arg harg

/-- The application of a function keeps every discipline. -/
theorem applies (D : Discipline) {heap heap' : Heap} {scope : ScopeId} {f r : Value}
    {args : List Value} :
    Applies heap scope f args r heap' → D.heapOk heap → D.scopeOk heap scope → D.resultOk heap f →
      D.ArgsOk heap args → D.Keeps scope heap r heap'
  | .refused h, hheap, _, _, _ =>
      .refl hheap (D.result_fault _ _ fun hcause => Arity.check_ne_badOp _ _ (hcause ▸ h))
  | .failed _ h, hheap, _, _, _ =>
      .refl hheap (D.result_fault _ _ fun hcause => Builtin.perform_ne_badOp _ _ _ (hcause ▸ h))
  | .gives _ h, hheap, hscope, _, hargs => .refl hheap (result_perform hscope hargs h)
  | .defines _ _, hheap, hscope, _, hargs => keeps_defineAll hheap hscope hargs (.inr rfl)
  | .assigns _ _, hheap, hscope, _, hargs => keeps_defineAll hheap hscope hargs (.inl rfl)
  | .evaluates h, hheap, hscope, _, hargs => by
      have hitems := D.result_qexpr.1 (hargs _ List.mem_cons_self).1
      exact reduces D h hheap hscope (D.source_sexpr.2 hitems)
  | .mismatched h, hheap, _, _, _ =>
      .refl hheap (D.result_fault _ _ fun hcause => Heap.enter_ne_badOp _ _ _ _ (hcause ▸ h))
  | .enters henter h, hheap, _, hf, hargs => by
      obtain ⟨hheap₁, hframe, hbody, hcall⟩ := enter hheap hf hargs henter
      exact hcall scope (reduces D h hheap₁ hframe hbody)
  | .notFunction _, hheap, _, _, _ => .refl hheap (D.result_fault _ _ (by decide))

end

/-- The application of a lambda keeps what any scope would have to keep, not only the scope in which
it is applied. -/
theorem applies_lambda (D : Discipline) {closure : ScopeId} {formals : Formals}
    {body args : List Value} {r : Value}
    (h : Applies heap scope (.lambda formals body closure) args r heap') (hheap : D.heapOk heap)
    (hlambda : D.resultOk heap (.lambda formals body closure)) (hargs : D.ArgsOk heap args)
    (scope' : ScopeId) : D.Keeps scope' heap r heap' := by
  cases h with
  | mismatched h =>
      exact .refl hheap (D.result_fault _ _ fun hcause => Heap.enter_ne_badOp _ _ _ _ (hcause ▸ h))
  | enters henter hbody =>
      obtain ⟨hheap₁, hframe, hsource, hcall⟩ := enter hheap hlambda hargs henter
      exact hcall scope' (D.reduces hbody hheap₁ hframe hsource)
  | notFunction hfunction => cases hfunction

end Discipline

/-! ### Disciplines of scopes -/

/-- A discipline for which a value fits into a heap when the scopes it closes over do, at any depth.
It only has to say what becomes of scopes. -/
structure ScopeDiscipline where
  -- the heaps that are in order
  heapOk : Heap → Prop
  -- the scopes that may be used
  scopeOk : Heap → ScopeId → Prop
  -- what a reduction in a scope may do to a heap
  change : ScopeId → Heap → Heap → Prop
  change_refl : ∀ scope heap, change scope heap heap
  change_trans : ∀ {scope heap₁ heap₂ heap₃},
    change scope heap₁ heap₂ → change scope heap₂ heap₃ → change scope heap₁ heap₃
  scope_mono : ∀ {scope heap heap' d}, change scope heap heap' → scopeOk heap d → scopeOk heap' d
  binding : ∀ {heap scope d name v}, heapOk heap → scopeOk heap scope → d ∈ heap.chain scope →
    (heap.bindings d).get? name = some v → ∀ c ∈ v.closures, scopeOk heap c
  define : ∀ {heap scope d v} (name : String), heapOk heap → scopeOk heap scope →
    d = scope ∨ d = heap.root scope → (∀ c ∈ v.closures, scopeOk heap c) →
    heapOk (heap.define d name v) ∧ change scope heap (heap.define d name v)
  spawn : ∀ {heap closure}, heapOk heap → scopeOk heap closure →
    heapOk (heap.spawn closure).2 ∧ scopeOk (heap.spawn closure).2 heap.size
  change_of_call : ∀ {heap heap' closure} (scope : ScopeId),
    change heap.size (heap.spawn closure).2 heap' → change scope heap heap'

/-- A computed number closes over nothing. -/
theorem closures_of_calculate {op : Arith} {args : List Value} {v : Value}
    (h : Builtin.calculate op args = .ok (.give v)) : v.closures = [] := by
  rcases Builtin.calculate_eq_ok h with ⟨n, heq⟩ | ⟨x, heq⟩
  · cases heq
    rfl
  · cases heq
    rfl

/-- Values fit when the scopes they close over do. -/
def ScopeDiscipline.toDiscipline (D : ScopeDiscipline) : Discipline where
  heapOk := D.heapOk
  scopeOk := D.scopeOk
  sourceOk heap v := ∀ c ∈ v.closures, D.scopeOk heap c
  resultOk heap v := ∀ c ∈ v.closures, D.scopeOk heap c
  argOk _ := True
  change := D.change
  change_refl := D.change_refl
  change_trans := D.change_trans
  scope_mono := D.scope_mono
  source_mono hchange hv c hc := D.scope_mono hchange (hv c hc)
  result_mono hchange hv c hc := D.scope_mono hchange (hv c hc)
  result_of_normal hv _ := hv
  arg_of_not_fault _ := trivial
  source_of_result hv _ := hv
  source_sexpr := Value.forall_closures_sexpr
  result_qexpr := Value.forall_closures_qexpr
  result_lambda := by simp [Value.forall_closures_lambda, -Value.closures_lambda]
  result_integer := by simp
  result_fault := by simp
  result_builtin := by simp
  result_calculate _ hcalc := by simp [closures_of_calculate hcalc]
  result_binding := D.binding
  define name hheap hscope hd hv _ := D.define name hheap hscope hd hv
  spawn := D.spawn
  change_of_call := D.change_of_call

end QuoteLisp
