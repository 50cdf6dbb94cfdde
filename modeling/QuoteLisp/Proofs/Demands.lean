import Mathlib.Logic.Relation
import QuoteLisp.Proofs.Discipline

/-!
# What evaluation sets out to do

On its way to a result, or on its way to none, evaluation reduces other values and calls functions.
Each of these is a `Demand`, in the heap as it is by then. `Demand.LeadsTo` tells what a demand leads
to directly: for a program, its items one after the other and then a call, and for a call, the body of
a lambda or the list that is to be evaluated. Nothing is left out: the evaluator depends on no other
reductions (`Reducer.reduceItems_eq_of_agrees`). `Demand.Reaches` follows any number of such steps, so
it speaks of all that ever happens during an evaluation, whether that finishes or not.

A discipline that holds where an evaluation starts holds at every demand it reaches
(`Discipline.demandOk_of_reaches`): one step at a time, since what was reduced before a demand has
kept it.
-/

set_option autoImplicit false

namespace QuoteLisp

/-- A further item that is reduced after the others, to no fault, extends the list of results. -/
theorem ReducesAll.concat {heap heap₁ heap₂ : Heap} {scope : ScopeId} {vs ws : List Value}
    {v w : Value} : ReducesAll heap scope vs ws heap₁ → Reduces heap₁ scope v w heap₂ →
      w.isFault = false → ReducesAll heap scope (vs ++ [v]) (ws ++ [w]) heap₂
  | .nil, hv, hw => .cons hv hw .nil
  | .cons hu hfault hvs, hv, hw => .cons hu hfault (hvs.concat hv hw)

/-- Values reduce from left to right, each in the heap that the one before it left, and none of them
to a fault. -/
def FinishesEach (heap : Heap) (scope : ScopeId) (vs ws : List Value) (heap' : Heap) : Prop :=
  ∃ bound, (eval bound).reduceEach heap scope vs = some (.ok ws, heap')

/-- Items that finish one after the other are reduced by the rules in that order. -/
theorem FinishesEach.reducesAll {heap heap' : Heap} {scope : ScopeId} {vs ws : List Value}
    (h : FinishesEach heap scope vs ws heap') : ReducesAll heap scope vs ws heap' := by
  obtain ⟨bound, hout⟩ := h
  exact (eval_sound bound).reduceEach_ok hout

/-- A further item that finishes after the others, with no fault, extends the list of results. -/
theorem FinishesEach.concat {heap heap₁ heap₂ : Heap} {scope : ScopeId} {vs ws : List Value}
    {v w : Value} (h : FinishesEach heap scope vs ws heap₁) (hv : Finishes heap₁ scope v w heap₂)
    (hw : w.isFault = false) : FinishesEach heap scope (vs ++ [v]) (ws ++ [w]) heap₂ :=
  (h.reducesAll.concat hv.reduces hw).finishes

/-- Something that the evaluator sets out to do. -/
inductive Demand where
  /-- To reduce a value in a scope of a heap. -/
  | reduce (heap : Heap) (scope : ScopeId) (v : Value)
  /-- To apply a value to arguments, for a program in a scope of a heap. -/
  | call (heap : Heap) (scope : ScopeId) (function : Value) (args : List Value)

namespace Demand

/-- The heap as it is when a demand is begun. -/
def heap : Demand → Heap
  | reduce heap _ _ => heap
  | call heap _ _ _ => heap

/-- What a demand leads to directly. -/
inductive LeadsTo : Demand → Demand → Prop where
  -- the first item of a program is reduced first
  | first {heap : Heap} {scope : ScopeId} {first : Value} {rest : List Value} :
      LeadsTo (.reduce heap scope (.sexpr (first :: rest))) (.reduce heap scope first)
  -- another item is reduced after those before it, unless the first is a fault or quotes it
  | item {heap heap₁ heap₂ : Heap} {scope : ScopeId} {first f v : Value}
      {before after ws : List Value} :
      Finishes heap scope first f heap₁ → f.isFault = false → f.isQuoting = false →
      FinishesEach heap₁ scope before ws heap₂ →
      LeadsTo (.reduce heap scope (.sexpr (first :: (before ++ v :: after)))) (.reduce heap₂ scope v)
  -- a quoting function is called with the other items as they are written
  | quoted {heap heap₁ : Heap} {scope : ScopeId} {first f : Value} {rest : List Value} :
      Finishes heap scope first f heap₁ → f.isQuoting = true → rest ≠ [] →
      LeadsTo (.reduce heap scope (.sexpr (first :: rest))) (.call heap₁ scope f rest)
  -- any other value is called with what the other items reduce to
  | applied {heap heap₁ heap₂ : Heap} {scope : ScopeId} {first f : Value}
      {rest args : List Value} :
      Finishes heap scope first f heap₁ → f.isFault = false → f.isQuoting = false → rest ≠ [] →
      FinishesEach heap₁ scope rest args heap₂ →
      LeadsTo (.reduce heap scope (.sexpr (first :: rest))) (.call heap₂ scope f args)
  -- the body of a lambda is reduced in the scope of the call
  | body {heap heap₁ : Heap} {scope closure frame : ScopeId} {formals : Formals}
      {body args : List Value} :
      heap.enter closure formals args = .ok (frame, heap₁) →
      LeadsTo (.call heap scope (.lambda formals body closure) args)
        (.reduce heap₁ frame (.sexpr body))
  -- a builtin function may ask for a program to be reduced
  | asked {heap : Heap} {scope : ScopeId} {b : Builtin} {args items : List Value} :
      b.arity.check args.length = .ok () → b.perform scope args = .ok (.reduce items) →
      LeadsTo (.call heap scope (.builtin b) args) (.reduce heap scope (.sexpr items))

/-- What a demand leads to in any number of steps. -/
def Reaches : Demand → Demand → Prop :=
  Relation.ReflTransGen LeadsTo

end Demand

/-! ### Nothing else is reduced -/

namespace Reducer

open Demand (LeadsTo)

variable {reduce : Reducer} {bound : Nat} {heap : Heap} {scope : ScopeId}

/-- A reducer agrees with evaluation on the reductions that a demand leads to. -/
def Agrees (reduce : Reducer) (bound : Nat) (demand : Demand) : Prop :=
  ∀ heap scope v, LeadsTo demand (.reduce heap scope v) →
    reduce heap scope v = eval bound heap scope v

/-- A reducer that agrees with the evaluator on what a call demands applies functions as it does. -/
theorem apply_eq_of_agrees {f : Value} {args : List Value}
    (h : reduce.Agrees bound (.call heap scope f args)) :
    reduce.apply heap scope f args = (eval bound).apply heap scope f args := by
  cases f with
  | builtin b =>
      simp only [apply, callAs]
      split
      · rfl
      · next hcheck =>
          split
          · rfl
          · next effect hperform =>
              cases effect with
              | give v => rfl
              | bind place entries => cases place <;> rfl
              | reduce items => exact h _ _ _ (.asked hcheck hperform)
  | lambda formals body closure =>
      simp only [apply]
      split
      · rfl
      · next frame heap₁ henter => exact h _ _ _ (.body henter)
  | _ => rfl

/-- The items of a program after the first agree when those before them have been reduced. -/
theorem reduceEach_eq_of_agrees {heap₁ heap₂ : Heap} {first f : Value}
    {rest before vs ws : List Value}
    (h : reduce.Agrees bound (.reduce heap scope (.sexpr (first :: rest))))
    (hfirst : Finishes heap scope first f heap₁) (hfault : f.isFault = false)
    (hquoting : f.isQuoting = false) (hrest : rest = before ++ vs)
    (hbefore : FinishesEach heap₁ scope before ws heap₂) :
    reduce.reduceEach heap₂ scope vs = (eval bound).reduceEach heap₂ scope vs := by
  induction vs generalizing before ws heap₂ with
  | nil => rfl
  | cons v vs ih =>
      have hv : reduce heap₂ scope v = eval bound heap₂ scope v := by
        subst hrest
        exact h _ _ _ (.item hfirst hfault hquoting hbefore)
      cases hout : eval bound heap₂ scope v with
      | none => simp only [reduceEach, hv, hout]
      | some answer =>
          obtain ⟨w, heap₃⟩ := answer
          cases hw : w.isFault with
          | true =>
              cases w with
              | fault cause => rw [reduceEach_cons_fault hout, reduceEach_cons_fault (hv.trans hout)]
              | _ => cases hw
          | false =>
              have hsplit : rest = (before ++ [v]) ++ vs := by
                rw [hrest, List.append_assoc, List.singleton_append]
              have htail := ih hsplit (hbefore.concat ⟨bound, hout⟩ hw)
              simp only [reduceEach, hv, hout]
              cases w with
              | fault cause => cases hw
              | _ => simp only [htail]

/-- The evaluator depends on no other reductions: a reducer that agrees with evaluation on those that
a program leads to, and on those that the calls it leads to lead to, gives what evaluation gives. -/
theorem reduceItems_eq_of_agrees {first : Value} {rest : List Value}
    (h : reduce.Agrees bound (.reduce heap scope (.sexpr (first :: rest))))
    (hcall : ∀ heap' f args,
      LeadsTo (.reduce heap scope (.sexpr (first :: rest))) (.call heap' scope f args) →
        reduce.Agrees bound (.call heap' scope f args)) :
    reduce.reduceItems heap scope first rest =
      eval (bound + 1) heap scope (.sexpr (first :: rest)) := by
  show _ = (eval bound).reduceItems heap scope first rest
  have hfirst : reduce heap scope first = eval bound heap scope first := h _ _ _ .first
  cases hout : eval bound heap scope first with
  | none => simp only [reduceItems, hfirst, hout]
  | some answer =>
      obtain ⟨f, heap₁⟩ := answer
      have hfinishes : Finishes heap scope first f heap₁ := ⟨bound, hout⟩
      cases hfault : f.isFault with
      | true =>
          cases f with
          | fault cause => simp only [reduceItems, hfirst, hout]
          | _ => cases hfault
      | false =>
          rw [reduceItems_of_first (hfirst.trans hout) hfault, reduceItems_of_first hout hfault]
          by_cases hrest : rest = []
          · simp [hrest]
          · simp only [List.isEmpty_iff, hrest, if_false]
            cases hquoting : f.isQuoting with
            | true => exact apply_eq_of_agrees (hcall _ _ _ (.quoted hfinishes hquoting hrest))
            | false =>
                have hnone : FinishesEach heap₁ scope [] [] heap₁ := ⟨0, rfl⟩
                rw [reduceEach_eq_of_agrees h hfinishes hfault hquoting rfl hnone]
                simp only [Bool.false_eq_true, if_false]
                split
                · rfl
                · rfl
                · next args heap₂ hargs =>
                    exact apply_eq_of_agrees
                      (hcall _ _ _ (.applied hfinishes hfault hquoting hrest ⟨bound, hargs⟩))

end Reducer

/-! ### Disciplines along demands -/

namespace Discipline

variable {D : Discipline}

/-- A demand may be begun: the heap is in order, and what is to be reduced or called fits into it. A
quoting function may be called with anything. -/
def DemandOk (D : Discipline) : Demand → Prop
  | .reduce heap scope v => D.heapOk heap ∧ D.scopeOk heap scope ∧ D.sourceOk heap v
  | .call heap scope f args =>
      D.heapOk heap ∧ D.scopeOk heap scope ∧ D.resultOk heap f ∧
        (f.isQuoting = false → D.ArgsOk heap args)

/-- A demand in order is made of a heap in order. -/
theorem DemandOk.heapOk {demand : Demand} (h : D.DemandOk demand) : D.heapOk demand.heap := by
  cases demand with
  | reduce heap scope v => exact h.1
  | call heap scope f args => exact h.1

/-- What a demand leads to may be begun when the demand may. -/
theorem demandOk_of_leadsTo {demand demand' : Demand} (h : D.DemandOk demand)
    (hleads : demand.LeadsTo demand') : D.DemandOk demand' := by
  cases hleads with
  | first =>
      obtain ⟨hheap, hscope, hv⟩ := h
      exact ⟨hheap, hscope, D.source_sexpr.1 hv _ List.mem_cons_self⟩
  | item hfirst _ _ hbefore =>
      obtain ⟨hheap, hscope, hv⟩ := h
      have hitems := D.source_sexpr.1 hv
      have hkeeps := D.reduces hfirst.reduces hheap hscope (hitems _ List.mem_cons_self)
      have hitems₁ := fun item hitem =>
        D.source_mono hkeeps.change (hitems item (List.mem_cons_of_mem _ hitem))
      have hscope₁ := D.scope_mono hkeeps.change hscope
      obtain ⟨hheap₂, hchange, -⟩ := D.reducesAll hbefore.reducesAll hkeeps.heapOk hscope₁
        fun item hitem => hitems₁ item (List.mem_append_left _ hitem)
      exact ⟨hheap₂, D.scope_mono hchange hscope₁,
        D.source_mono hchange (hitems₁ _ (List.mem_append_right _ List.mem_cons_self))⟩
  | quoted hfirst hquoting _ =>
      obtain ⟨hheap, hscope, hv⟩ := h
      have hkeeps := D.reduces hfirst.reduces hheap hscope
        (D.source_sexpr.1 hv _ List.mem_cons_self)
      refine ⟨hkeeps.heapOk, D.scope_mono hkeeps.change hscope, hkeeps.resultOk, ?_⟩
      intro hnot
      rw [hquoting] at hnot
      cases hnot
  | applied hfirst _ _ _ hrest =>
      obtain ⟨hheap, hscope, hv⟩ := h
      have hitems := D.source_sexpr.1 hv
      have hkeeps := D.reduces hfirst.reduces hheap hscope (hitems _ List.mem_cons_self)
      have hscope₁ := D.scope_mono hkeeps.change hscope
      obtain ⟨hheap₂, hchange, hargs⟩ := D.reducesAll hrest.reducesAll hkeeps.heapOk hscope₁
        fun item hitem => D.source_mono hkeeps.change (hitems item (List.mem_cons_of_mem _ hitem))
      exact ⟨hheap₂, D.scope_mono hchange hscope₁, D.result_mono hchange hkeeps.resultOk,
        fun _ => hargs⟩
  | body henter =>
      obtain ⟨hheap, -, hf, hargs⟩ := h
      obtain ⟨hheap₁, hframe, hbody, -⟩ := enter hheap hf (hargs rfl) henter
      exact ⟨hheap₁, hframe, hbody⟩
  | asked _ hperform =>
      obtain ⟨hheap, hscope, -, hargs⟩ := h
      cases Builtin.asks_of_perform hperform with
      | eval items rest hlist =>
          subst hlist
          have hitems := D.result_qexpr.1 (hargs rfl _ List.mem_cons_self).1
          exact ⟨hheap, hscope, D.source_sexpr.2 hitems⟩

/-- Whatever a demand reaches may be begun when the demand may. -/
theorem demandOk_of_reaches {demand demand' : Demand} (h : D.DemandOk demand)
    (hreaches : demand.Reaches demand') : D.DemandOk demand' := by
  induction hreaches with
  | refl => exact h
  | tail _ hleads ih => exact demandOk_of_leadsTo ih hleads

end Discipline

end QuoteLisp
