import QuoteLisp.Eval

/-!
# Evaluations that finish

`eval` is given a bound on how deep reductions may nest, and answers `none` when the bound is too
small. This file shows that the bound decides nothing else: an answer that one bound gives, every
larger bound gives too (`eval_mono`). So `Finishes` speaks of evaluation without naming a bound, and
an evaluation that finishes has one result and one final heap (`Finishes.unique`).

The parts of the evaluator take the reduction of a single value as an argument. The first section
says what an answer of each part tells about the answers it was built from; all later proofs about
the evaluator go through these lemmas and never open the definitions again.
-/

set_option autoImplicit false

namespace QuoteLisp

namespace Reducer

variable {reduce : Reducer} {heap heap₁ heap₂ heap' : Heap} {scope : ScopeId}

/-! ### What an answer tells -/

/-- A first item that is reduced to a fault stops the reduction of the items. -/
theorem reduceEach_cons_fault {v : Value} {vs : List Value} {fault : Fault}
    (hv : reduce heap scope v = some (.fault fault, heap₁)) :
    reduce.reduceEach heap scope (v :: vs) = some (.error fault, heap₁) := by
  simp only [reduceEach, hv]

/-- A first item that is reduced to no fault is put in front of the results of the others. -/
theorem reduceEach_cons {v w : Value} {vs : List Value} {tail : Except Fault (List Value)}
    (hv : reduce heap scope v = some (w, heap₁)) (hw : w.isFault = false)
    (hvs : reduce.reduceEach heap₁ scope vs = some (tail, heap₂)) :
    reduce.reduceEach heap scope (v :: vs) = some (tail.map (w :: ·), heap₂) := by
  cases tail <;> cases w <;> simp_all [reduceEach, Except.map, Value.isFault]

/-- A list that is reduced stops at its first value or goes on after it. -/
theorem reduceEach_cons_cases {v : Value} {vs : List Value} {result : Except Fault (List Value)}
    (h : reduce.reduceEach heap scope (v :: vs) = some (result, heap')) :
    (∃ fault, reduce heap scope v = some (.fault fault, heap') ∧ result = .error fault) ∨
      ∃ w heap₁ tail, reduce heap scope v = some (w, heap₁) ∧ w.isFault = false ∧
        reduce.reduceEach heap₁ scope vs = some (tail, heap') ∧ result = tail.map (w :: ·) := by
  simp only [reduceEach] at h
  cases hv : reduce heap scope v with
  | none => simp [hv] at h
  | some answer =>
      obtain ⟨w, heap₁⟩ := answer
      cases hw : w.isFault with
      | true =>
          cases w <;> simp_all [Value.isFault]
      | false =>
          right
          cases hvs : reduce.reduceEach heap₁ scope vs with
          | none => cases w <;> simp_all [Value.isFault]
          | some answer =>
              obtain ⟨tail, heap₂⟩ := answer
              have hcons := reduceEach_cons hv hw hvs
              simp only [reduceEach] at hcons
              rw [h] at hcons
              obtain ⟨rfl, rfl⟩ := Prod.mk.inj (Option.some.inj hcons)
              exact ⟨w, heap₁, tail, rfl, hw, hvs, rfl⟩

/-- The ways in which a program that is not empty comes to its result. -/
inductive ItemsOutcome (reduce : Reducer) (heap : Heap) (scope : ScopeId) (first : Value)
    (rest : List Value) (r : Value) (heap' : Heap) : Prop where
  -- the first item is a fault or stands alone
  | first (hfirst : reduce heap scope first = some (r, heap')) (hend : r.isFault ∨ rest = [])
  -- the first item takes the others as they are written
  | quoted (function : Value) (heap₁ : Heap)
      (hfirst : reduce heap scope first = some (function, heap₁))
      (hquoting : function.isQuoting = true) (hrest : rest ≠ [])
      (happly : reduce.apply heap₁ scope function rest = some (r, heap'))
  -- one of the others is a fault
  | stopped (function : Value) (heap₁ : Heap) (fault : Fault)
      (hfirst : reduce heap scope first = some (function, heap₁))
      (hfault : function.isFault = false) (hquoting : function.isQuoting = false)
      (heach : reduce.reduceEach heap₁ scope rest = some (.error fault, heap'))
      (hresult : r = .fault fault)
  -- all items are reduced, and the first is applied to the others
  | applied (function : Value) (heap₁ : Heap) (args : List Value) (heap₂ : Heap)
      (hfirst : reduce heap scope first = some (function, heap₁))
      (hfault : function.isFault = false) (hquoting : function.isQuoting = false)
      (hrest : rest ≠ [])
      (heach : reduce.reduceEach heap₁ scope rest = some (.ok args, heap₂))
      (happly : reduce.apply heap₂ scope function args = some (r, heap'))

/-- A program whose first item reduces to no fault goes by what that item is. -/
theorem reduceItems_of_first {first function : Value} {rest : List Value}
    (hfirst : reduce heap scope first = some (function, heap₁))
    (hfault : function.isFault = false) :
    reduce.reduceItems heap scope first rest =
      if rest.isEmpty then some (function, heap₁)
      else if function.isQuoting then reduce.apply heap₁ scope function rest
      else
        match reduce.reduceEach heap₁ scope rest with
        | none => none
        | some (.error fault, heap) => some (.fault fault, heap)
        | some (.ok args, heap) => reduce.apply heap scope function args := by
  unfold reduceItems
  rw [hfirst]
  cases function with
  | fault fault => cases hfault
  | _ => rfl

/-- These are all the ways, and each of them gives the result. -/
theorem reduceItems_eq_some_iff {first r : Value} {rest : List Value} :
    reduce.reduceItems heap scope first rest = some (r, heap') ↔
      ItemsOutcome reduce heap scope first rest r heap' := by
  constructor
  · intro h
    cases hfirst : reduce heap scope first with
    | none => simp [reduceItems, hfirst] at h
    | some answer =>
        obtain ⟨function, heap₁⟩ := answer
        cases hfault : function.isFault with
        | true =>
            cases function <;> simp only [Value.isFault, Bool.false_eq_true] at hfault
            simp only [reduceItems, hfirst, Option.some.injEq, Prod.mk.injEq] at h
            obtain ⟨rfl, rfl⟩ := h
            exact .first hfirst (.inl rfl)
        | false =>
            rw [reduceItems_of_first hfirst hfault] at h
            by_cases hrest : rest = []
            · subst hrest
              cases h
              exact .first hfirst (.inr rfl)
            · rw [if_neg (by simpa using hrest)] at h
              cases hquoting : function.isQuoting with
              | true =>
                  rw [if_pos hquoting] at h
                  exact .quoted function heap₁ hfirst hquoting hrest h
              | false =>
                  rw [if_neg (by simp [hquoting])] at h
                  split at h
                  · cases h
                  · next fault heap₂ heach =>
                      cases h
                      exact .stopped function heap₁ fault hfirst hfault hquoting heach rfl
                  · next args heap₂ heach =>
                      exact .applied function heap₁ args heap₂ hfirst hfault hquoting hrest heach h
  · intro h
    cases h with
    | first hfirst hend =>
        rcases hend with hfault | rfl
        · cases r <;> simp_all [Value.isFault, reduceItems]
        · cases r <;> simp [reduceItems, hfirst]
    | quoted function heap₁ hfirst hquoting hrest happly =>
        have hfault : function.isFault = false := by
          cases function with
          | fault fault => cases hquoting
          | _ => rfl
        rw [reduceItems_of_first hfirst hfault, if_neg (by simpa using hrest), if_pos hquoting]
        exact happly
    | stopped function heap₁ fault hfirst hfault hquoting heach hresult =>
        have hrest : rest ≠ [] := by
          rintro rfl
          cases heach
        rw [reduceItems_of_first hfirst hfault, if_neg (by simpa using hrest),
          if_neg (by simp [hquoting]), heach, hresult]
    | applied function heap₁ args heap₂ hfirst hfault hquoting hrest heach happly =>
        rw [reduceItems_of_first hfirst hfault, if_neg (by simpa using hrest),
          if_neg (by simp [hquoting]), heach]
        exact happly

/-! ### More reductions, the same answers -/

/-- The second way of reducing gives every answer that the first one gives. -/
def Extends (reduce reduce' : Reducer) : Prop :=
  ∀ heap scope v out, reduce heap scope v = some out → reduce' heap scope v = some out

variable {reduce' : Reducer}

/-- What items are reduced to by one reducer, they are reduced to by one that extends it. -/
theorem Extends.reduceEach (h : Extends reduce reduce') {vs : List Value}
    {result : Except Fault (List Value)}
    (hout : reduce.reduceEach heap scope vs = some (result, heap')) :
    reduce'.reduceEach heap scope vs = some (result, heap') := by
  induction vs generalizing heap result with
  | nil => exact hout
  | cons v vs ih =>
      rcases reduceEach_cons_cases hout with
        ⟨fault, hv, rfl⟩ | ⟨w, heap₁, tail, hv, hw, hvs, rfl⟩
      · exact reduceEach_cons_fault (h _ _ _ _ hv)
      · exact reduceEach_cons (h _ _ _ _ hv) hw (ih hvs)

/-- What a builtin function gives with one reducer, it gives with one that extends it. -/
theorem Extends.callAs (h : Extends reduce reduce') {arity : Arity} {function : Builtin}
    {args : List Value} {out : Value × Heap}
    (hout : reduce.callAs arity heap scope function args = some out) :
    reduce'.callAs arity heap scope function args = some out := by
  unfold Reducer.callAs at hout ⊢
  cases hcheck : arity.check args.length with
  | error fault => simpa only [hcheck] using hout
  | ok _ =>
      rw [hcheck] at hout
      cases hperform : function.perform scope args with
      | error fault => simpa only [hperform] using hout
      | ok effect =>
          rw [hperform] at hout
          cases effect with
          | give v => exact hout
          | bind place entries => cases place <;> exact hout
          | reduce items => exact h _ _ _ _ hout

/-- What a function gives with one reducer, it gives with one that extends it. -/
theorem Extends.apply (h : Extends reduce reduce') {function : Value} {args : List Value}
    {out : Value × Heap} (hout : reduce.apply heap scope function args = some out) :
    reduce'.apply heap scope function args = some out := by
  cases function with
  | builtin b => exact h.callAs hout
  | lambda formals body closure =>
      simp only [Reducer.apply] at hout ⊢
      cases henter : heap.enter closure formals args with
      | error fault => simpa only [henter] using hout
      | ok entered =>
          rw [henter] at hout
          exact h _ _ _ _ hout
  | _ => exact hout

/-- What a list is reduced to by one reducer, it is reduced to by one that extends it. -/
theorem Extends.reduceItems (h : Extends reduce reduce') {first r : Value} {rest : List Value}
    (hout : reduce.reduceItems heap scope first rest = some (r, heap')) :
    reduce'.reduceItems heap scope first rest = some (r, heap') := by
  rw [reduceItems_eq_some_iff] at hout ⊢
  cases hout with
  | first hfirst hend => exact .first (h _ _ _ _ hfirst) hend
  | quoted function heap₁ hfirst hquoting hrest happly =>
      exact .quoted function heap₁ (h _ _ _ _ hfirst) hquoting hrest (h.apply happly)
  | stopped function heap₁ fault hfirst hfault hquoting heach hresult =>
      exact .stopped function heap₁ fault (h _ _ _ _ hfirst) hfault hquoting (h.reduceEach heach)
        hresult
  | applied function heap₁ args heap₂ hfirst hfault hquoting hrest heach happly =>
      exact .applied function heap₁ args heap₂ (h _ _ _ _ hfirst) hfault hquoting hrest
        (h.reduceEach heach) (h.apply happly)

end Reducer

namespace Value

/-- The values that reduce to themselves: all but symbols and programs that are not empty. -/
def Normal : Value → Prop
  | .symbol _ => False
  | .sexpr (_ :: _) => False
  | .integer _ | .double _ | .fault _ | .builtin _ | .lambda _ _ _ | .sexpr [] | .qexpr _ => True

instance : DecidablePred Normal := fun v =>
  match v with
  | .symbol _ => isFalse id
  | .sexpr (_ :: _) => isFalse id
  | .integer _ | .double _ | .fault _ | .builtin _ | .lambda _ _ _ | .sexpr [] | .qexpr _ =>
      isTrue trivial

end Value

/-! ### The bound -/

section Bound

variable {heap heap' : Heap} {scope : ScopeId} {v r : Value}

/-- A normal value is its own result, within every bound. -/
theorem eval_normal (bound : Nat) (h : v.Normal) : eval bound heap scope v = some (v, heap) := by
  cases v with
  | symbol name => cases h
  | sexpr items =>
      cases items with
      | nil => cases bound <;> rfl
      | cons first rest => cases h
  | _ => cases bound <;> rfl

/-- A symbol is looked up, within every bound. -/
theorem eval_symbol (bound : Nat) (heap : Heap) (scope : ScopeId) (name : String) :
    eval bound heap scope (.symbol name) =
      match heap.lookup scope name with
      | .ok w => some (w, heap)
      | .error fault => some (.fault fault, heap) := by
  cases bound <;> rfl

/-- An answer of evaluation tells whether it had to look anything up or to reduce items. -/
theorem eval_cases {bound : Nat} (h : eval bound heap scope v = some (r, heap')) :
    (v.Normal ∧ r = v ∧ heap' = heap) ∨
      (∃ name, v = .symbol name ∧ heap' = heap ∧
        (heap.lookup scope name = .ok r ∨
          ∃ fault, heap.lookup scope name = .error fault ∧ r = .fault fault)) ∨
      ∃ bound' first rest, bound = bound' + 1 ∧ v = .sexpr (first :: rest) ∧
        (eval bound').reduceItems heap scope first rest = some (r, heap') := by
  by_cases hv : v.Normal
  · left
    rw [eval_normal bound hv] at h
    cases h
    exact ⟨hv, rfl, rfl⟩
  · right
    cases v with
    | symbol name =>
        left
        rw [eval_symbol] at h
        split at h
        · next hlookup =>
            cases h
            exact ⟨name, rfl, rfl, .inl hlookup⟩
        · next fault hlookup =>
            cases h
            exact ⟨name, rfl, rfl, .inr ⟨fault, hlookup, rfl⟩⟩
    | sexpr items =>
        cases items with
        | nil => exact absurd trivial hv
        | cons first rest =>
            cases bound with
            | zero => cases h
            | succ bound => exact .inr ⟨bound, first, rest, rfl, rfl, h⟩
    | _ => exact absurd trivial hv

/-- A larger bound keeps every result. -/
theorem eval_extends_succ (bound : Nat) : Reducer.Extends (eval bound) (eval (bound + 1)) := by
  induction bound using Nat.strongRecOn with
  | ind bound ih =>
      rintro heap scope v ⟨r, heap'⟩ hout
      rcases eval_cases hout with
        ⟨hv, rfl, rfl⟩ | ⟨name, rfl, -, -⟩ | ⟨bound', first, rest, rfl, rfl, hitems⟩
      · exact eval_normal _ hv
      · rwa [eval_symbol] at hout ⊢
      · have hextends := ih bound' (by omega)
        exact hextends.reduceItems hitems

/-- An answer does not depend on the bound: every larger bound gives it too. -/
theorem eval_mono {bound bound' : Nat} (hle : bound ≤ bound') :
    Reducer.Extends (eval bound) (eval bound') := by
  induction hle with
  | refl => exact fun _ _ _ _ hout => hout
  | step _ ih => exact fun heap scope v out hout => eval_extends_succ _ _ _ _ _ (ih _ _ _ _ hout)

/-- The evaluation of a value in a scope finishes with a result and a final heap: some bound on
nested reductions is large enough. -/
def Finishes (heap : Heap) (scope : ScopeId) (v r : Value) (heap' : Heap) : Prop :=
  ∃ bound, eval bound heap scope v = some (r, heap')

/-- The application of a function to arguments finishes with a result and a final heap. -/
def FinishesCall (heap : Heap) (scope : ScopeId) (function : Value) (args : List Value) (r : Value)
    (heap' : Heap) : Prop :=
  ∃ bound, (eval bound).apply heap scope function args = some (r, heap')

/-- An evaluation has no more than one result and one final heap. -/
theorem Finishes.unique {r' : Value} {heap'' : Heap} (h : Finishes heap scope v r heap')
    (h' : Finishes heap scope v r' heap'') : r' = r ∧ heap'' = heap' := by
  obtain ⟨bound, hout⟩ := h
  obtain ⟨bound', hout'⟩ := h'
  have hmax := eval_mono (Nat.le_max_left bound bound') _ _ _ _ hout
  rw [eval_mono (Nat.le_max_right bound bound') _ _ _ _ hout'] at hmax
  exact Prod.mk.inj (Option.some.inj hmax)

/-- An application has one result and leaves one heap. -/
theorem FinishesCall.unique {function r' : Value} {args : List Value} {heap'' : Heap}
    (h : FinishesCall heap scope function args r heap')
    (h' : FinishesCall heap scope function args r' heap'') : r' = r ∧ heap'' = heap' := by
  obtain ⟨bound, hout⟩ := h
  obtain ⟨bound', hout'⟩ := h'
  have hmax := (eval_mono (Nat.le_max_left bound bound')).apply hout
  rw [(eval_mono (Nat.le_max_right bound bound')).apply hout'] at hmax
  exact Prod.mk.inj (Option.some.inj hmax)

end Bound

end QuoteLisp
