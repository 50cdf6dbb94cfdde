import Mathlib
import QuoteLisp.Proofs.Definitions
import QuoteLisp.Proofs.PartDiscipline

/-!
# Programs that always finish

Evaluation need not come to an end, but there are only two ways in which it reduces anything other than
the parts of the program it was given: the body of a lambda that is applied, and a list that is to be
evaluated. A first-order program has neither. It holds no lambda, none of the two functions that turn
data into programs, and not their names. Such a program may well handle lists in which these occur, and
it may bind and pass on functions. But no item ever comes out of a list except in another list, so all
it finds bound, computes and binds is tame: it can be applied without anything being reduced.

The first section shows what the application of a tame value does (`Reducer.exists_apply`), the second
that a program finishes if its items do (`Reducer.exists_reduceItems`). The result then follows by
induction on the bound, since the items of a list nest less deep than the list.
-/

set_option autoImplicit false

namespace QuoteLisp

namespace Value

/-- A value that is no lambda and none of the functions that turn data into programs. -/
def Tame : Value → Prop
  | .builtin function => function ≠ .eval ∧ function ≠ .lambda
  | .lambda _ _ _ => False
  | .integer _ | .double _ | .fault _ | .symbol _ | .sexpr _ | .qexpr _ => True

/-- A tame value that does not name a function that turns data into programs either. -/
def FirstOrder : Value → Prop
  | .builtin function => function ≠ .eval ∧ function ≠ .lambda
  | .lambda _ _ _ => False
  | .symbol name => name ≠ Builtin.eval.name ∧ name ≠ Builtin.lambda.name
  | .integer _ | .double _ | .fault _ | .sexpr _ | .qexpr _ => True

instance : DecidablePred FirstOrder := fun v =>
  match v with
  | .builtin function => inferInstanceAs (Decidable (function ≠ .eval ∧ function ≠ .lambda))
  | .lambda _ _ _ => isFalse id
  | .symbol name =>
      inferInstanceAs (Decidable (name ≠ Builtin.eval.name ∧ name ≠ Builtin.lambda.name))
  | .integer _ | .double _ | .fault _ | .sexpr _ | .qexpr _ => isTrue trivial

/-- A first-order value is tame. -/
theorem FirstOrder.tame {v : Value} (h : v.FirstOrder) : v.Tame := by
  cases v with
  | builtin function => exact h
  | lambda formals body closure => exact h
  | _ => trivial

mutual

/-- How deep lists nest in a value. -/
def nesting : Value → Nat
  | .lambda _ body _ => 1 + nestingAll body
  | .sexpr items => 1 + nestingAll items
  | .qexpr items => 1 + nestingAll items
  | .integer _ | .double _ | .fault _ | .symbol _ | .builtin _ => 0

/-- How deep lists nest in the deepest of several values. -/
def nestingAll : List Value → Nat
  | [] => 0
  | v :: vs => max (nesting v) (nestingAll vs)

end

/-- A value nests no deeper than the deepest of several that it is one of. -/
theorem nesting_le_nestingAll {v : Value} {vs : List Value} (h : v ∈ vs) :
    v.nesting ≤ nestingAll vs := by
  induction vs with
  | nil => cases h
  | cons u vs ih =>
      rw [nestingAll]
      rcases List.mem_cons.1 h with rfl | h
      · exact Nat.le_max_left _ _
      · exact Nat.le_trans (ih h) (Nat.le_max_right _ _)

end Value

namespace Heap

/-- A heap in which names are bound to tame values only. Lists may hold any values. -/
def AllTame (heap : Heap) : Prop :=
  ∀ d name v, (heap.bindings d).get? name = some v → v.Tame

/-- What becomes of a heap of tame bindings: it has the same scopes, and its bindings are tame. -/
structure StaysTame (heap heap' : Heap) : Prop where
  allTame : heap'.AllTame
  size_eq : heap'.size = heap.size

variable {heap heap₁ heap₂ : Heap}

/-- A heap of tame bindings stays tame while nothing happens. -/
theorem AllTame.staysTame (h : heap.AllTame) : heap.StaysTame heap :=
  ⟨h, rfl⟩

/-- A heap that stays tame twice stays tame. -/
theorem StaysTame.trans (h₁ : heap.StaysTame heap₁) (h₂ : heap₁.StaysTame heap₂) :
    heap.StaysTame heap₂ :=
  ⟨h₂.allTame, h₂.size_eq.trans h₁.size_eq⟩

/-- The first heap has tame bindings, for it has none. -/
theorem allTame_initial : Heap.initial.AllTame := by
  intro d name v hget
  rw [bindings_initial, Bindings.get?_empty] at hget
  cases hget

/-- A definition of a tame value keeps the bindings tame. -/
theorem AllTame.define (h : heap.AllTame) (id : ScopeId) (name : String) {v : Value} (hv : v.Tame) :
    (heap.define id name v).AllTame := fun _ _ _ hget =>
  forall_define (h _ _ _) hv hget

/-- Definitions of tame values keep the bindings tame. -/
theorem AllTame.defineAll (h : heap.AllTame) (id : ScopeId) {entries : List (String × Value)}
    (hentries : ∀ entry ∈ entries, entry.2.Tame) : (heap.defineAll id entries).AllTame := by
  induction entries generalizing heap with
  | nil => exact h
  | cons entry entries ih =>
      have hdefine := h.define id entry.1 (hentries entry List.mem_cons_self)
      exact ih hdefine fun e he => hentries e (List.mem_cons_of_mem _ he)

/-- Definitions of tame values make no scope and keep the bindings tame. -/
theorem AllTame.staysTame_defineAll (h : heap.AllTame) (id : ScopeId) {names : List String}
    {values : List Value} (hvalues : ∀ v ∈ values, v.Tame) :
    heap.StaysTame (heap.defineAll id (names.zip values)) := by
  refine ⟨h.defineAll id ?_, size_defineAll heap id _⟩
  intro entry hentry
  exact hvalues entry.2 (List.of_mem_zip hentry).2

/-- What a name means is tame, unless it is the name of a function that turns data into programs. -/
theorem AllTame.tame_of_lookup (h : heap.AllTame) {scope : ScopeId} {name : String} {v : Value}
    (hname : (Value.symbol name).FirstOrder) (hlookup : heap.lookup scope name = .ok v) :
    v.Tame := by
  cases lookup_eq_iff_means.1 hlookup with
  | bound _ hget => exact h _ _ _ hget
  | builtin _ heq =>
      subst heq
      refine ⟨?_, ?_⟩
      · rintro rfl
        exact hname.1 rfl
      · rintro rfl
        exact hname.2 rfl

end Heap

/-! ### Applications -/

namespace Reducer

variable {heap : Heap}

/-- A tame builtin function gives a tame value for tame arguments, whatever the reducer. -/
theorem exists_callAs (reduce : Reducer) (scope : ScopeId) {function : Builtin} {args : List Value}
    (arity : Arity) (hheap : heap.AllTame) (hfunction : (Value.builtin function).Tame)
    (hargs : ∀ arg ∈ args, arg.Tame) :
    ∃ r heap', reduce.callAs arity heap scope function args = some (r, heap') ∧ r.Tame ∧
      heap.StaysTame heap' := by
  unfold callAs
  split
  · exact ⟨_, _, rfl, trivial, hheap.staysTame⟩
  · split
    · exact ⟨_, _, rfl, trivial, hheap.staysTame⟩
    · next effect heffect =>
        cases Builtin.asks_of_perform heffect with
        | number op v hcalculate =>
            rcases Builtin.calculate_eq_ok hcalculate with ⟨n, heq⟩ | ⟨x, heq⟩
            · cases heq
              exact ⟨_, _, rfl, trivial, hheap.staysTame⟩
            · cases heq
              exact ⟨_, _, rfl, trivial, hheap.staysTame⟩
        | length | quotation | list => exact ⟨_, _, rfl, trivial, hheap.staysTame⟩
        | lambda => exact absurd rfl hfunction.2
        | define names values hargs' | assign names values hargs' =>
            subst hargs'
            exact ⟨_, _, rfl, trivial, hheap.staysTame_defineAll _ fun v hv =>
              hargs v (List.mem_cons_of_mem _ hv)⟩
        | eval => exact absurd rfl hfunction.1

/-- The application of a tame value to tame arguments finishes without any reduction. -/
theorem exists_apply (reduce : Reducer) (scope : ScopeId) {f : Value} {args : List Value}
    (hheap : heap.AllTame) (hf : f.Tame) (hargs : ∀ arg ∈ args, arg.Tame) :
    ∃ r heap', reduce.apply heap scope f args = some (r, heap') ∧ r.Tame ∧
      heap.StaysTame heap' := by
  cases f with
  | builtin function => exact exists_callAs reduce scope function.arity hheap hf hargs
  | lambda formals body closure => exact absurd hf id
  | _ => exact ⟨_, _, rfl, trivial, hheap.staysTame⟩

/-! ### Programs -/

/-- In every heap of tame bindings a value is reduced to a tame value. -/
def SettlesOn (reduce : Reducer) (scope : ScopeId) (v : Value) : Prop :=
  ∀ heap : Heap, heap.AllTame →
    ∃ r heap', reduce heap scope v = some (r, heap') ∧ r.Tame ∧ heap.StaysTame heap'

variable {reduce : Reducer} {scope : ScopeId}

/-- Items that settle are reduced to tame values, or to a fault, one after the other. -/
theorem exists_reduceEach {vs : List Value} (hvs : ∀ v ∈ vs, reduce.SettlesOn scope v)
    (hheap : heap.AllTame) :
    ∃ result heap', reduce.reduceEach heap scope vs = some (result, heap') ∧
      (∀ ws, result = .ok ws → ∀ w ∈ ws, w.Tame) ∧ heap.StaysTame heap' := by
  induction vs generalizing heap with
  | nil =>
      refine ⟨.ok [], heap, rfl, ?_, hheap.staysTame⟩
      rintro ws ⟨⟩
      simp
  | cons v vs ih =>
      obtain ⟨w, heap₁, hv, hw, hstays⟩ := hvs v List.mem_cons_self heap hheap
      cases hfault : w.isFault with
      | true =>
          cases w with
          | fault cause =>
              refine ⟨.error cause, heap₁, reduceEach_cons_fault hv, ?_, hstays⟩
              rintro ws ⟨⟩
          | _ => cases hfault
      | false =>
          obtain ⟨tail, heap₂, htail, hws, hstays₂⟩ :=
            ih (fun u hu => hvs u (List.mem_cons_of_mem _ hu)) hstays.allTame
          refine ⟨_, heap₂, reduceEach_cons hv hfault htail, ?_, hstays.trans hstays₂⟩
          intro us hus
          cases tail with
          | error cause => cases hus
          | ok ws =>
              cases hus
              exact List.forall_mem_cons.2 ⟨hw, hws ws rfl⟩

/-- A program is reduced if its items are. -/
theorem exists_reduceItems {first : Value} {rest : List Value}
    (hitems : ∀ v ∈ first :: rest, reduce.SettlesOn scope v)
    (hrest : ∀ v ∈ rest, v.Tame) (hheap : heap.AllTame) :
    ∃ r heap', reduce.reduceItems heap scope first rest = some (r, heap') ∧ r.Tame ∧
      heap.StaysTame heap' := by
  obtain ⟨f, heap₁, hfirst, hf, hstays⟩ := hitems first List.mem_cons_self heap hheap
  by_cases hend : f.isFault = true ∨ rest = []
  · exact ⟨f, heap₁, reduceItems_eq_some_iff.2 (.first hfirst hend), hf, hstays⟩
  · rw [not_or, Bool.not_eq_true] at hend
    obtain ⟨hfault, hne⟩ := hend
    cases hquoting : f.isQuoting with
    | true =>
        obtain ⟨r, heap₂, happly, hr, hstays₂⟩ :=
          exists_apply reduce scope hstays.allTame hf hrest
        exact ⟨r, heap₂, reduceItems_eq_some_iff.2 (.quoted f heap₁ hfirst hquoting hne happly), hr,
          hstays.trans hstays₂⟩
    | false =>
        obtain ⟨result, heap₂, heach, hargs, hstays₂⟩ :=
          exists_reduceEach (fun v hv => hitems v (List.mem_cons_of_mem _ hv)) hstays.allTame
        cases result with
        | error cause =>
            exact ⟨.fault cause, heap₂, reduceItems_eq_some_iff.2
              (.stopped f heap₁ cause hfirst hfault hquoting heach rfl), trivial,
              hstays.trans hstays₂⟩
        | ok args =>
            obtain ⟨r, heap₃, happly, hr, hstays₃⟩ :=
              exists_apply reduce scope hstays₂.allTame hf (hargs args rfl)
            exact ⟨r, heap₃, reduceItems_eq_some_iff.2
              (.applied f heap₁ args heap₂ hfirst hfault hquoting hne heach happly), hr,
              (hstays.trans hstays₂).trans hstays₃⟩

end Reducer

/-- A first-order program is reduced with any bound that is not below its nesting. -/
theorem eval_settlesOn {bound : Nat} (scope : ScopeId) {v : Value}
    (hv : v.AllParts Value.FirstOrder) (hbound : v.nesting ≤ bound) :
    (eval bound).SettlesOn scope v := by
  induction bound using Nat.strongRecOn generalizing v with
  | ind bound ih =>
      intro heap hheap
      by_cases hnormal : v.Normal
      · exact ⟨v, heap, eval_normal bound hnormal, hv.self.tame, hheap.staysTame⟩
      · cases v with
        | symbol name =>
            rw [eval_symbol]
            cases hlookup : heap.lookup scope name with
            | ok w => exact ⟨w, heap, rfl, hheap.tame_of_lookup hv.self hlookup, hheap.staysTame⟩
            | error cause => exact ⟨_, heap, rfl, trivial, hheap.staysTame⟩
        | sexpr items =>
            cases items with
            | nil => exact absurd trivial hnormal
            | cons first rest =>
                obtain ⟨-, hparts⟩ := Value.allParts_sexpr.1 hv
                rw [Value.nesting] at hbound
                obtain ⟨bound, rfl⟩ : ∃ b, bound = b + 1 := ⟨bound - 1, by omega⟩
                -- the items nest less deep than the list, and so the smaller bound is enough
                have hitems : ∀ u ∈ first :: rest, (eval bound).SettlesOn scope u := by
                  intro u hu
                  have hle := Value.nesting_le_nestingAll hu
                  exact ih bound (by omega) (hparts u hu) (by omega)
                exact Reducer.exists_reduceItems hitems
                  (fun u hu => (hparts u (List.mem_cons_of_mem _ hu)).self.tame) hheap
        | _ => exact absurd trivial hnormal

/-- **First-order programs always finish, within their own nesting depth.** In a heap that binds no name
to a lambda or to one of the two functions that turn data into programs, let a value be given that
holds no such function at any depth, and no symbol that names one. Its evaluation finishes, in any
scope, with reductions nested no deeper than lists nest in the value; the final heap binds no name to
such a function either, and no scope has been made. -/
theorem first_order_programs_finish {heap : Heap} (hheap : heap.AllTame) (scope : ScopeId) {v : Value}
    (hv : v.AllParts Value.FirstOrder) :
    ∃ r heap', Finishes heap scope v r heap' ∧ eval v.nesting heap scope v = some (r, heap') ∧
      heap'.AllTame ∧ heap'.size = heap.size := by
  obtain ⟨r, heap', heval, -, hstays⟩ :=
    eval_settlesOn scope hv (Nat.le_refl v.nesting) heap hheap
  exact ⟨r, heap', ⟨v.nesting, heval⟩, heval, hstays.allTame, hstays.size_eq⟩

/-- A program moves functions from one list to another and quotes a symbol that means nothing. It is
done with reductions nested as deep as its lists, and the name it defines is bound to a list. -/
theorem functions_in_lists_do_not_run :
    let xs : Value := .qexpr [.lambda ⟨["x"], none⟩ [.symbol "x"] 0, .builtin .eval]
    let heap := Heap.initial.define 0 "xs" xs
    let v : Value := .sexpr [.symbol "def", .qexpr [.symbol "ys"],
      .sexpr [.symbol "join", .sexpr [.symbol "tail", .symbol "xs"],
        .sexpr [.symbol "list", .sexpr [.symbol "nope"]]]]
    let heap' := heap.define 0 "ys" (.qexpr [.builtin .eval, .sexpr [.symbol "nope"]])
    heap.AllTame ∧ v.AllParts Value.FirstOrder ∧ v.nesting = 4 ∧
      eval 4 heap 0 v = some (.unit, heap') ∧ heap'.AllTame ∧ heap'.size = 1 := by
  intro xs heap v heap'
  have hheap : heap.AllTame := Heap.allTame_initial.define 0 "xs" trivial
  have hv : v.AllParts Value.FirstOrder := by
    show ∀ u ∈ v.parts, u.FirstOrder
    decide
  have hnesting : v.nesting = 4 := by decide
  have heval : eval 4 heap 0 v = some (.unit, heap') := by cbv
  obtain ⟨r, heap'', -, hbound, hheap', hsize⟩ := first_order_programs_finish hheap 0 hv
  rw [hnesting, heval] at hbound
  cases hbound
  exact ⟨hheap, hv, hnesting, heval, hheap', hsize⟩

end QuoteLisp
