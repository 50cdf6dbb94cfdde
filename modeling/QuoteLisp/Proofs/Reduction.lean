import QuoteLisp.Proofs.Effects
import QuoteLisp.Proofs.Finishing

/-!
# The rules of reduction

`Reduces`, `ReducesAll` and `Applies` tell what evaluation means by rules, without a bound and
without saying in which order to try them. The rules for a program speak of all its items at once:
where the first fault is, what all items reduce to when there is none, and what becomes of the first
when it is applied to the others. The heap goes through every rule from left to right.

`finishes_iff_reduces` is the result: evaluation finishes with a result and a heap exactly when the
rules reach them. `Reducer.Sound` is the invariant that carries one direction through the parts of
the evaluator; the other is a walk along a derivation, in which the larger of two bounds serves for
both of two premises.
-/

set_option autoImplicit false

namespace QuoteLisp

/-- A number of arguments is accepted exactly when the arity contains it. -/
theorem Arity.check_eq_ok_iff {arity : Arity} {n : Nat} :
    arity.check n = .ok () ↔ arity.contains n = true := by
  unfold check
  constructor
  · intro h
    split at h
    · assumption
    · split at h
      · split at h <;> cases h
      · cases h
  · intro h
    rw [if_pos h]

namespace Value

/-- Whether a value can be applied. -/
def isFunction : Value → Bool
  | .builtin _ | .lambda _ _ _ => true
  | _ => false

end Value

mutual

/-- In a scope of a heap a value reduces to a result and leaves a heap. -/
inductive Reduces : Heap → ScopeId → Value → Value → Heap → Prop where
  -- a symbol reduces to what it means
  | symbol {heap : Heap} {scope : ScopeId} {name : String} {v : Value} :
      heap.lookup scope name = .ok v → Reduces heap scope (.symbol name) v heap
  -- a symbol that means nothing is unbound
  | unbound {heap : Heap} {scope : ScopeId} {name : String} {fault : Fault} :
      heap.lookup scope name = .error fault →
      Reduces heap scope (.symbol name) (.fault .unboundSymbol) heap
  -- a normal value reduces to itself
  | normal {heap : Heap} {scope : ScopeId} {v : Value} : v.Normal → Reduces heap scope v v heap
  -- a single item is what it reduces to
  | single {heap heap' : Heap} {scope : ScopeId} {v r : Value} :
      Reduces heap scope v r heap' → Reduces heap scope (.sexpr [v]) r heap'
  -- a quoting function takes the other items as they are written
  | quoted {heap heap₁ heap₂ : Heap} {scope : ScopeId} {first r : Value} {rest : List Value}
      {b : Builtin} :
      Reduces heap scope first (.builtin b) heap₁ → b.isQuoting = true → rest ≠ [] →
      Applies heap₁ scope (.builtin b) rest r heap₂ →
      Reduces heap scope (.sexpr (first :: rest)) r heap₂
  -- the first fault among the items ends the reduction: nothing after it is reduced, and nothing is
  -- applied
  | stopped {heap heap₁ heap₂ : Heap} {scope : ScopeId} {before after ws : List Value} {v : Value}
      {fault : Fault} :
      ReducesAll heap scope before ws heap₁ → (∀ w, ws.head? = some w → w.isQuoting = false) →
      Reduces heap₁ scope v (.fault fault) heap₂ →
      Reduces heap scope (.sexpr (before ++ v :: after)) (.fault fault) heap₂
  -- without a fault, all items are reduced and the first is applied to the others
  | applied {heap heap₁ heap₂ : Heap} {scope : ScopeId} {first f r : Value}
      {rest args : List Value} :
      ReducesAll heap scope (first :: rest) (f :: args) heap₁ → f.isQuoting = false → rest ≠ [] →
      Applies heap₁ scope f args r heap₂ → Reduces heap scope (.sexpr (first :: rest)) r heap₂

/-- Values reduce from left to right, none of them to a fault. -/
inductive ReducesAll : Heap → ScopeId → List Value → List Value → Heap → Prop where
  | nil {heap : Heap} {scope : ScopeId} : ReducesAll heap scope [] [] heap
  | cons {heap heap₁ heap₂ : Heap} {scope : ScopeId} {v w : Value} {vs ws : List Value} :
      Reduces heap scope v w heap₁ → w.isFault = false → ReducesAll heap₁ scope vs ws heap₂ →
      ReducesAll heap scope (v :: vs) (w :: ws) heap₂

/-- In a scope of a heap the application of a value to arguments gives a result and leaves a
heap. -/
inductive Applies : Heap → ScopeId → Value → List Value → Value → Heap → Prop where
  -- a wrong number of arguments is refused before anything else
  | refused {heap : Heap} {scope : ScopeId} {b : Builtin} {args : List Value} {fault : Fault} :
      b.arity.check args.length = .error fault →
      Applies heap scope (.builtin b) args (.fault fault) heap
  | failed {heap : Heap} {scope : ScopeId} {b : Builtin} {args : List Value} {fault : Fault} :
      b.arity.check args.length = .ok () → b.perform scope args = .error fault →
      Applies heap scope (.builtin b) args (.fault fault) heap
  | gives {heap : Heap} {scope : ScopeId} {b : Builtin} {args : List Value} {v : Value} :
      b.arity.check args.length = .ok () → b.perform scope args = .ok (.give v) →
      Applies heap scope (.builtin b) args v heap
  -- global definitions go to the root of the scope at hand, from the first to the last
  | defines {heap : Heap} {scope : ScopeId} {names : List String} {values : List Value} :
      names ≠ [] → names.length = values.length →
      Applies heap scope (.builtin .define) (.qexpr (names.map .symbol) :: values) .unit
        (heap.defineAll (heap.root scope) (names.zip values))
  -- local definitions go to the scope at hand itself
  | assigns {heap : Heap} {scope : ScopeId} {names : List String} {values : List Value} :
      names ≠ [] → names.length = values.length →
      Applies heap scope (.builtin .assign) (.qexpr (names.map .symbol) :: values) .unit
        (heap.defineAll scope (names.zip values))
  -- a list of data is reduced as a program in the scope at hand
  | evaluates {heap heap' : Heap} {scope : ScopeId} {items : List Value} {r : Value} :
      Reduces heap scope (.sexpr items) r heap' →
      Applies heap scope (.builtin .eval) [.qexpr items] r heap'
  | mismatched {heap : Heap} {scope closure : ScopeId} {formals : Formals}
      {body args : List Value} {fault : Fault} :
      heap.enter closure formals args = .error fault →
      Applies heap scope (.lambda formals body closure) args (.fault fault) heap
  -- the body of a lambda is reduced as a program in a new scope, which lies in the one that the
  -- lambda closes over
  | enters {heap heap₁ heap₂ : Heap} {scope closure frame : ScopeId} {formals : Formals}
      {body args : List Value} {r : Value} :
      heap.enter closure formals args = .ok (frame, heap₁) →
      Reduces heap₁ frame (.sexpr body) r heap₂ →
      Applies heap scope (.lambda formals body closure) args r heap₂
  | notFunction {heap : Heap} {scope : ScopeId} {f : Value} {args : List Value} :
      f.isFunction = false → Applies heap scope f args (.fault .badSexprStart) heap

end

/-- A quoting function gives its arguments as a list, and nothing else happens. -/
theorem Applies.eq_of_isQuoting {heap heap' : Heap} {scope : ScopeId} {b : Builtin}
    {args : List Value} {r : Value} (hb : b.isQuoting = true)
    (h : Applies heap scope (.builtin b) args r heap') : r = .qexpr args ∧ heap' = heap := by
  have hperform : b.perform scope args = .ok (.give (.qexpr args)) := by
    rcases Builtin.eq_of_isQuoting hb with rfl | rfl <;> rfl
  have hcheck : b.arity.check args.length = .ok () := by
    rw [Arity.check_eq_ok_iff]
    rcases Builtin.eq_of_isQuoting hb with rfl | rfl <;> simp [Builtin.arity, Arity.contains]
  cases h with
  | refused hrefused => simp [hcheck] at hrefused
  | failed _ hfailed => simp [hperform] at hfailed
  | gives _ hgives =>
      rw [hperform] at hgives
      cases hgives
      exact ⟨rfl, rfl⟩
  | defines | assigns | evaluates => cases hb
  | notFunction hfunction => cases hfunction

/-! ### Evaluation follows the rules -/

/-- Looking up a name fails only because it is unbound. -/
theorem Heap.eq_unboundSymbol_of_lookup {heap : Heap} {scope : ScopeId} {name : String}
    {fault : Fault} (h : heap.lookup scope name = .error fault) : fault = .unboundSymbol := by
  unfold lookup at h
  split at h
  · cases h
  · split at h
    · cases h
    · cases h
      rfl

namespace Reducer

/-- Every answer of a reducer is reached by the rules. -/
def Sound (reduce : Reducer) : Prop :=
  ∀ heap scope v r heap', reduce heap scope v = some (r, heap') → Reduces heap scope v r heap'

variable {reduce : Reducer} {heap heap' : Heap} {scope : ScopeId}

/-- The items that a sound reducer reduces are reduced by the rules. -/
theorem Sound.reduceEach_ok (h : reduce.Sound) {vs ws : List Value}
    (hout : reduce.reduceEach heap scope vs = some (.ok ws, heap')) :
    ReducesAll heap scope vs ws heap' := by
  induction vs generalizing heap ws with
  | nil =>
      cases hout
      exact .nil
  | cons v vs ih =>
      rcases reduceEach_cons_cases hout with ⟨fault, -, hfault⟩ | ⟨w, heap₁, tail, hv, hw, hvs, htail⟩
      · cases hfault
      · cases tail with
        | error fault => cases htail
        | ok ws' =>
            cases htail
            exact .cons (h _ _ _ _ _ hv) hw (ih hvs)

/-- Where values are reduced up to a fault, those before it reduce by the rules, and so does the
one that gives it. -/
theorem Sound.reduceEach_error (h : reduce.Sound) {vs : List Value} {fault : Fault}
    (hout : reduce.reduceEach heap scope vs = some (.error fault, heap')) :
    ∃ before v after ws heap₁, vs = before ++ v :: after ∧
      ReducesAll heap scope before ws heap₁ ∧ Reduces heap₁ scope v (.fault fault) heap' := by
  induction vs generalizing heap with
  | nil => cases hout
  | cons v vs ih =>
      rcases reduceEach_cons_cases hout with ⟨fault', hv, hfault⟩ | ⟨w, heap₁, tail, hv, hw, hvs, htail⟩
      · cases hfault
        exact ⟨[], v, vs, [], heap, rfl, .nil, h _ _ _ _ _ hv⟩
      · cases tail with
        | ok ws => cases htail
        | error fault' =>
            cases htail
            obtain ⟨before, u, after, ws, heap₂, rfl, hbefore, hu⟩ := ih hvs
            exact ⟨v :: before, u, after, w :: ws, heap₂, rfl,
              .cons (h _ _ _ _ _ hv) hw hbefore, hu⟩

/-- What a sound reducer gives for a function and arguments, the rules give. -/
theorem Sound.apply (h : reduce.Sound) {f r : Value} {args : List Value}
    (hout : reduce.apply heap scope f args = some (r, heap')) :
    Applies heap scope f args r heap' := by
  cases f with
  | builtin b =>
      simp only [Reducer.apply, callAs] at hout
      split at hout
      · next fault hcheck =>
          cases hout
          exact .refused hcheck
      · next hcheck =>
          split at hout
          · next fault hperform =>
              cases hout
              exact .failed hcheck hperform
          · next effect hperform =>
              cases Builtin.asks_of_perform hperform with
              | number | length | quotation | list | lambda =>
                  cases hout
                  exact .gives hcheck hperform
              | define names values hargs hne hlength =>
                  cases hout
                  rw [hargs]
                  exact .defines hne hlength
              | assign names values hargs hne hlength =>
                  cases hout
                  rw [hargs]
                  exact .assigns hne hlength
              | eval items rest hargs =>
                  subst hargs
                  obtain rfl : rest = [] := by
                    simpa [Builtin.arity, Arity.exactly, Arity.check_eq_ok_iff, Arity.contains]
                      using hcheck
                  exact .evaluates (h _ _ _ _ _ hout)
  | lambda formals body closure =>
      simp only [Reducer.apply] at hout
      split at hout
      · next fault henter =>
          cases hout
          exact .mismatched henter
      · next frame heap₁ henter => exact .enters henter (h _ _ _ _ _ hout)
  | _ =>
      cases hout
      exact .notFunction rfl

/-- What a sound reducer gives for a list, the rules give. -/
theorem Sound.reduceItems (h : reduce.Sound) {first r : Value} {rest : List Value}
    (hout : reduce.reduceItems heap scope first rest = some (r, heap')) :
    Reduces heap scope (.sexpr (first :: rest)) r heap' := by
  cases reduceItems_eq_some_iff.1 hout with
  | first hfirst hend =>
      rcases hend with hfault | rfl
      · cases r with
        | fault fault => exact Reduces.stopped .nil (by simp) (h _ _ _ _ _ hfirst)
        | _ => cases hfault
      · exact .single (h _ _ _ _ _ hfirst)
  | quoted function heap₁ hfirst hquoting hrest happly =>
      cases function with
      | builtin b => exact .quoted (h _ _ _ _ _ hfirst) hquoting hrest (h.apply happly)
      | _ => cases hquoting
  | stopped function heap₁ fault hfirst hfault hquoting heach hresult =>
      subst hresult
      obtain ⟨before, v, after, ws, heap₂, rfl, hbefore, hv⟩ := h.reduceEach_error heach
      have hall : ReducesAll heap scope (first :: before) (function :: ws) heap₂ :=
        .cons (h _ _ _ _ _ hfirst) hfault hbefore
      refine Reduces.stopped hall ?_ hv
      intro w hw
      cases hw
      exact hquoting
  | applied function heap₁ args heap₂ hfirst hfault hquoting hrest heach happly =>
      have hall : ReducesAll heap scope (first :: rest) (function :: args) heap₂ :=
        .cons (h _ _ _ _ _ hfirst) hfault (h.reduceEach_ok heach)
      exact .applied hall hquoting hrest (h.apply happly)

end Reducer

/-- Evaluation goes by the rules, whatever the bound. -/
theorem eval_sound (bound : Nat) : (eval bound).Sound := by
  induction bound using Nat.strongRecOn with
  | ind bound ih =>
      intro heap scope v r heap' hout
      rcases eval_cases hout with
        ⟨hv, rfl, rfl⟩ | ⟨name, rfl, rfl, hlookup⟩ | ⟨bound', first, rest, rfl, rfl, hitems⟩
      · exact .normal hv
      · rcases hlookup with hlookup | ⟨fault, hlookup, rfl⟩
        · exact .symbol hlookup
        · rw [Heap.eq_unboundSymbol_of_lookup hlookup]
          exact .unbound hlookup
      · have hsound := ih bound' (by omega)
        exact hsound.reduceItems hitems

/-! ### The rules are followed to the end -/

namespace Reducer

variable {reduce : Reducer} {heap heap₁ heap₂ : Heap} {scope : ScopeId}

/-- A fault behind items that are reduced stops the reduction there. -/
theorem reduceEach_append_fault {before after ws : List Value} {v : Value} {fault : Fault}
    (hbefore : reduce.reduceEach heap scope before = some (.ok ws, heap₁))
    (hv : reduce heap₁ scope v = some (.fault fault, heap₂)) :
    reduce.reduceEach heap scope (before ++ v :: after) = some (.error fault, heap₂) := by
  induction before generalizing heap ws with
  | nil =>
      cases hbefore
      exact reduceEach_cons_fault hv
  | cons u before ih =>
      rcases reduceEach_cons_cases hbefore with
        ⟨fault', -, hfault⟩ | ⟨w, heap', tail, hu, hw, hrest, htail⟩
      · cases hfault
      · cases tail with
        | error fault' => cases htail
        | ok ws' => exact reduceEach_cons hu hw (ih hrest)

/-- A program is left at its first fault, unless a quoting function stands before it. -/
theorem reduceItems_stopped {before after ws : List Value} {v : Value} {fault : Fault}
    (hbefore : reduce.reduceEach heap scope before = some (.ok ws, heap₁))
    (hquoting : ∀ w, ws.head? = some w → w.isQuoting = false)
    (hv : reduce heap₁ scope v = some (.fault fault, heap₂)) :
    ∃ first rest, before ++ v :: after = first :: rest ∧
      reduce.reduceItems heap scope first rest = some (.fault fault, heap₂) := by
  cases before with
  | nil =>
      cases hbefore
      exact ⟨v, after, rfl, reduceItems_eq_some_iff.2 (.first hv (.inl rfl))⟩
  | cons u before =>
      rcases reduceEach_cons_cases hbefore with
        ⟨fault', -, hfault⟩ | ⟨w, heap', tail, hu, hw, hrest, htail⟩
      · cases hfault
      · cases tail with
        | error fault' => cases htail
        | ok ws' =>
            cases htail
            have heach : reduce.reduceEach heap' scope (before ++ v :: after) =
                some (.error fault, heap₂) := reduceEach_append_fault hrest hv
            refine ⟨u, before ++ v :: after, rfl, reduceItems_eq_some_iff.2 ?_⟩
            exact .stopped w heap' fault hu hw (hquoting w rfl) heach rfl

/-- A program without a fault applies its first item to the others. -/
theorem reduceItems_applied {first f r : Value} {rest args : List Value}
    (hall : reduce.reduceEach heap scope (first :: rest) = some (.ok (f :: args), heap₁))
    (hquoting : f.isQuoting = false) (hrest : rest ≠ [])
    (happly : reduce.apply heap₁ scope f args = some (r, heap₂)) :
    reduce.reduceItems heap scope first rest = some (r, heap₂) := by
  rcases reduceEach_cons_cases hall with
    ⟨fault', -, hfault⟩ | ⟨w, heap', tail, hfirst, hw, heach, htail⟩
  · cases hfault
  · cases tail with
    | error fault' => cases htail
    | ok ws' =>
        cases htail
        exact reduceItems_eq_some_iff.2
          (.applied f heap' args heap₁ hfirst hw hquoting hrest heach happly)

/-- Names and as many values are enough arguments for a definition, and it is carried out. -/
theorem callAs_bindNames (function : Builtin) (place : Place) {names : List String}
    {values : List Value} (harity : function.arity = .atLeast 2)
    (hperform : ∀ args, function.perform scope args = Builtin.bindNames place args)
    (hne : names ≠ []) (hlength : names.length = values.length) :
    reduce.callAs function.arity heap scope function (.qexpr (names.map .symbol) :: values) =
      reduce.carryOut heap scope (.bind place (names.zip values)) := by
  have hpos := List.length_pos_iff.2 hne
  have hcheck : function.arity.check (.qexpr (names.map .symbol) :: values).length = .ok () := by
    rw [Arity.check_eq_ok_iff, harity]
    simp only [Arity.contains, List.length_cons, decide_eq_true_eq]
    omega
  simp only [callAs, hcheck, hperform, Builtin.bindNames_symbols place hne hlength]

end Reducer

mutual

/-- What the rules reach, evaluation reaches with some bound. -/
theorem Reduces.finishes {heap heap' : Heap} {scope : ScopeId} {v r : Value} :
    Reduces heap scope v r heap' → Finishes heap scope v r heap'
  | .symbol h => ⟨0, by simp only [eval_symbol, h]⟩
  | .unbound h => ⟨0, by simp only [eval_symbol, h, Heap.eq_unboundSymbol_of_lookup h]⟩
  | .normal h => ⟨0, eval_normal 0 h⟩
  | .single h => by
      obtain ⟨n, hn⟩ := h.finishes
      exact ⟨n + 1, Reducer.reduceItems_eq_some_iff.2 (.first hn (.inr rfl))⟩
  | .quoted hfirst hquoting hrest happly => by
      obtain ⟨n, hn⟩ := hfirst.finishes
      obtain ⟨m, hm⟩ := happly.finishes
      have hn' := eval_mono (Nat.le_max_left n m) _ _ _ _ hn
      have hm' := (eval_mono (Nat.le_max_right n m)).apply hm
      exact ⟨max n m + 1, Reducer.reduceItems_eq_some_iff.2 (.quoted _ _ hn' hquoting hrest hm')⟩
  | .stopped hbefore hquoting hv => by
      obtain ⟨n, hn⟩ := hbefore.finishes
      obtain ⟨m, hm⟩ := hv.finishes
      have hn' := (eval_mono (Nat.le_max_left n m)).reduceEach hn
      have hm' := eval_mono (Nat.le_max_right n m) _ _ _ _ hm
      obtain ⟨first, rest, heq, hitems⟩ := Reducer.reduceItems_stopped hn' hquoting hm'
      exact ⟨max n m + 1, by rw [heq]; exact hitems⟩
  | .applied hall hquoting hrest happly => by
      obtain ⟨n, hn⟩ := hall.finishes
      obtain ⟨m, hm⟩ := happly.finishes
      have hn' := (eval_mono (Nat.le_max_left n m)).reduceEach hn
      have hm' := (eval_mono (Nat.le_max_right n m)).apply hm
      exact ⟨max n m + 1, Reducer.reduceItems_applied hn' hquoting hrest hm'⟩

/-- Items that reduce by the rules are reduced one after the other within some bound. -/
theorem ReducesAll.finishes {heap heap' : Heap} {scope : ScopeId} {vs ws : List Value} :
    ReducesAll heap scope vs ws heap' →
      ∃ bound, (eval bound).reduceEach heap scope vs = some (.ok ws, heap')
  | .nil => ⟨0, rfl⟩
  | .cons hv hw hvs => by
      obtain ⟨n, hn⟩ := hv.finishes
      obtain ⟨m, hm⟩ := hvs.finishes
      have hn' := eval_mono (Nat.le_max_left n m) _ _ _ _ hn
      have hm' := (eval_mono (Nat.le_max_right n m)).reduceEach hm
      exact ⟨max n m, Reducer.reduceEach_cons hn' hw hm'⟩

/-- A function that applies by the rules finishes. -/
theorem Applies.finishes {heap heap' : Heap} {scope : ScopeId} {f r : Value} {args : List Value} :
    Applies heap scope f args r heap' → FinishesCall heap scope f args r heap'
  | .refused h => ⟨0, by simp only [Reducer.apply, Reducer.callAs, h]⟩
  | .failed h h' => ⟨0, by simp only [Reducer.apply, Reducer.callAs, h, h']⟩
  | .gives h h' => ⟨0, by simp only [Reducer.apply, Reducer.callAs, h, h', Reducer.carryOut]⟩
  | .defines hne hlength => ⟨0, Reducer.callAs_bindNames .define .global rfl (fun _ => rfl) hne hlength⟩
  | .assigns hne hlength => ⟨0, Reducer.callAs_bindNames .assign .here rfl (fun _ => rfl) hne hlength⟩
  | .evaluates h => by
      obtain ⟨n, hn⟩ := h.finishes
      exact ⟨n, hn⟩
  | .mismatched h => ⟨0, by simp only [Reducer.apply, h]⟩
  | .enters henter h => by
      obtain ⟨n, hn⟩ := h.finishes
      exact ⟨n, by simp only [Reducer.apply, henter, hn]⟩
  | .notFunction h => ⟨0, by cases f <;> first | rfl | cases h⟩

end

/-- What finishes reduces by the rules. -/
theorem Finishes.reduces {heap heap' : Heap} {scope : ScopeId} {v r : Value}
    (h : Finishes heap scope v r heap') : Reduces heap scope v r heap' := by
  obtain ⟨bound, hout⟩ := h
  exact eval_sound bound _ _ _ _ _ hout

/-- A function that finishes applies by the rules. -/
theorem FinishesCall.applies {heap heap' : Heap} {scope : ScopeId} {f r : Value}
    {args : List Value} (h : FinishesCall heap scope f args r heap') :
    Applies heap scope f args r heap' := by
  obtain ⟨bound, hout⟩ := h
  exact (eval_sound bound).apply hout

/-- **Evaluation and the rules agree.** In every heap and every scope the evaluation of a value
finishes with a result and a final heap exactly when the rules reduce the value to that result and
leave that heap. -/
theorem finishes_iff_reduces (heap : Heap) (scope : ScopeId) (v r : Value) (heap' : Heap) :
    Finishes heap scope v r heap' ↔ Reduces heap scope v r heap' := by
  constructor
  · exact Finishes.reduces
  · exact Reduces.finishes

end QuoteLisp
