import QuoteLisp.Builtin.Effect

/-!
# What builtin functions can ask for

`Builtin.perform` looks at arguments and says what is to happen. This file turns the question round:
when something is to happen, which function was it, and what were its arguments? `Asks` lists the
answers, and `asks_of_perform` shows that the list is complete. Of a list that is given it tells only
where the items come from; of definitions, of a lambda and of a program to be reduced it tells all.
-/

set_option autoImplicit false

namespace QuoteLisp

/-- What is mapped to a success is a success. -/
theorem exists_of_map_eq_ok {ε α β : Type} {x : Except ε α} {f : α → β} {b : β}
    (h : x.map f = .ok b) : ∃ a, x = .ok a ∧ b = f a := by
  cases x with
  | error e => cases h
  | ok a =>
      cases h
      exact ⟨a, rfl, rfl⟩

/-- Two steps succeed only when the first succeeds and the second does on its result. -/
theorem exists_of_bind_eq_ok {ε α β : Type} {x : Except ε α} {f : α → Except ε β} {b : β}
    (h : x.bind f = .ok b) : ∃ a, x = .ok a ∧ f a = .ok b := by
  cases x with
  | error e => cases h
  | ok a => exact ⟨a, rfl, h⟩

namespace Value

/-- Only a quoted list has items. -/
theorem toItems_eq_ok_iff {v : Value} {items : List Value} :
    v.toItems = .ok items ↔ v = .qexpr items := by
  cases v <;> simp [toItems]

/-- Only a symbol has a name. -/
theorem toName_eq_ok_iff {v : Value} {name : String} : v.toName = .ok name ↔ v = .symbol name := by
  cases v <;> simp [toName]

end Value

namespace Builtin

/-! ### The parts of `perform` -/

/-- The first argument of a list function is a quoted list. -/
theorem firstList_eq_ok {args items : List Value} (h : firstList args = .ok items) :
    ∃ rest, args = .qexpr items :: rest := by
  cases args with
  | nil => cases h
  | cons v rest => exact ⟨rest, by rw [Value.toItems_eq_ok_iff.1 h]⟩

/-- The first argument of a function that takes a list apart is a quoted list with an item. -/
theorem firstNonempty_eq_ok {args vs : List Value} {v : Value}
    (h : firstNonempty args = .ok (v, vs)) : ∃ rest, args = .qexpr (v :: vs) :: rest := by
  unfold firstNonempty at h
  split at h
  · next heq =>
      cases h
      exact firstList_eq_ok heq
  · cases h
  · cases h

/-- Joined items are items of the lists that were joined. -/
theorem mem_of_joinItems_eq_ok {args items : List Value} (h : joinItems args = .ok items) :
    ∀ item ∈ items, ∃ list, .qexpr list ∈ args ∧ item ∈ list := by
  induction args generalizing items with
  | nil =>
      cases h
      simp
  | cons v vs ih =>
      unfold joinItems at h
      split at h
      · cases h
      · next list hlist =>
          split at h
          · next rest hrest =>
              cases h
              intro item hitem
              rcases List.mem_append.1 hitem with hitem | hitem
              · exact ⟨list, Value.toItems_eq_ok_iff.1 hlist ▸ List.mem_cons_self, hitem⟩
              · obtain ⟨list', hmem, hitem⟩ := ih hrest item hitem
                exact ⟨list', List.mem_cons_of_mem _ hmem, hitem⟩
          · cases h

/-- The names of symbols are read off them. -/
theorem toNames_map_symbol (names : List String) : toNames (names.map .symbol) = .ok names := by
  induction names with
  | nil => rfl
  | cons name names ih => simp only [List.map_cons, toNames, Value.toName, ih]

/-- Items that have names are their symbols. -/
theorem eq_of_toNames_eq_ok {items : List Value} {names : List String}
    (h : toNames items = .ok names) : items = names.map .symbol := by
  induction items generalizing names with
  | nil =>
      cases h
      rfl
  | cons v vs ih =>
      unfold toNames at h
      split at h
      · cases h
      · next name hname =>
          split at h
          · next rest hrest =>
              cases h
              rw [Value.toName_eq_ok_iff.1 hname, ih hrest, List.map_cons]
          · cases h

/-- Names that are not empty and as many values are defined as they stand. -/
theorem bindNames_symbols (place : Place) {names : List String} {values : List Value}
    (hne : names ≠ []) (hlength : names.length = values.length) :
    bindNames place (.qexpr (names.map .symbol) :: values) =
      .ok (.bind place (names.zip values)) := by
  simp [bindNames, Value.toItems, toNames_map_symbol, hne, hlength]

/-- Nothing is defined unless there are names, all of them symbols, and as many values. -/
theorem bindNames_eq_ok {place : Place} {args : List Value} {effect : Effect}
    (h : bindNames place args = .ok effect) :
    ∃ names values, args = .qexpr (names.map .symbol) :: values ∧ names ≠ [] ∧
      names.length = values.length ∧ effect = .bind place (names.zip values) := by
  unfold bindNames at h
  split at h
  · cases h
  · next target values =>
      split at h
      · cases h
      · next items hitems =>
          split at h
          · cases h
          · next names hnames =>
              split at h
              · cases h
              · next hcond =>
                  cases h
                  simp only [Bool.or_eq_true, List.isEmpty_iff, bne_iff_ne, not_or,
                    ne_eq, Decidable.not_not] at hcond
                  refine ⟨names, values, ?_, hcond.1, hcond.2, rfl⟩
                  rw [Value.toItems_eq_ok_iff.1 hitems, eq_of_toNames_eq_ok hnames]

/-- A lambda has its parameters from the first argument and its body from the second, and closes over
the scope at hand. -/
theorem abstract_eq_ok {scope : ScopeId} {args : List Value} {effect : Effect}
    (h : abstract scope args = .ok effect) :
    ∃ formals body rest, args = .qexpr (formals.names.map .symbol) :: .qexpr body :: rest ∧
      effect = .give (.lambda formals body scope) := by
  unfold abstract at h
  split at h
  · next params code rest =>
      split at h
      · cases h
      · cases h
      · next symbols body hsymbols hbody =>
          split at h
          · cases h
          · next names hnames =>
              split at h
              · next formals hformals =>
                  cases h
                  refine ⟨formals, body, rest, ?_, rfl⟩
                  rw [Value.toItems_eq_ok_iff.1 hsymbols, Value.toItems_eq_ok_iff.1 hbody,
                    eq_of_toNames_eq_ok hnames, Formals.names_eq_of_ofNames hformals]
              · cases h
  · cases h

/-- A value is put in front of a quoted list. -/
theorem construct_eq_ok {args : List Value} {effect : Effect} (h : construct args = .ok effect) :
    ∃ v items rest, args = v :: .qexpr items :: rest ∧ effect = .give (.qexpr (v :: items)) := by
  unfold construct at h
  split at h
  · next v target rest =>
      split at h
      · next items hitems =>
          cases h
          exact ⟨v, items, rest, by rw [Value.toItems_eq_ok_iff.1 hitems], rfl⟩
      · cases h
  · cases h

/-- An arithmetic operation gives a number. -/
theorem calculate_eq_ok {op : Arith} {args : List Value} {effect : Effect}
    (h : calculate op args = .ok effect) :
    (∃ n, effect = .give (.integer n)) ∨ ∃ x, effect = .give (.double x) := by
  unfold calculate at h
  split at h
  · cases h
  · obtain ⟨n, -, rfl⟩ := exists_of_map_eq_ok h
    exact .inl ⟨n, rfl⟩
  · obtain ⟨x, -, rfl⟩ := exists_of_map_eq_ok h
    exact .inr ⟨x, rfl⟩

/-- The quoting functions are `list` and `quote`. -/
theorem eq_of_isQuoting {function : Builtin} (h : function.isQuoting = true) :
    function = .list ∨ function = .quote := by
  cases function with
  | list => exact .inl rfl
  | quote => exact .inr rfl
  | _ => cases h

/-! ### What `perform` asks for -/

/-- What a function that is called in a scope can ask for. -/
inductive Asks (scope : ScopeId) (args : List Value) : Builtin → Effect → Prop where
  | number (op : Arith) (v : Value) (h : calculate op args = .ok (.give v)) :
      Asks scope args (.arith op) (.give v)
  | length (n : Int64) : Asks scope args .len (.give (.integer n))
  | quotation (function : Builtin) (h : function.isQuoting = true) :
      Asks scope args function (.give (.qexpr args))
  -- a list of arguments and of items of lists among the arguments
  | list (function : Builtin) (items : List Value)
      (h : ∀ item ∈ items, item ∈ args ∨ ∃ list, .qexpr list ∈ args ∧ item ∈ list) :
      Asks scope args function (.give (.qexpr items))
  | lambda (formals : Formals) (body : List Value)
      (hparams : .qexpr (formals.names.map .symbol) ∈ args) (hbody : .qexpr body ∈ args) :
      Asks scope args .lambda (.give (.lambda formals body scope))
  | define (names : List String) (values : List Value)
      (hargs : args = .qexpr (names.map .symbol) :: values) (hne : names ≠ [])
      (hlength : names.length = values.length) :
      Asks scope args .define (.bind .global (names.zip values))
  | assign (names : List String) (values : List Value)
      (hargs : args = .qexpr (names.map .symbol) :: values) (hne : names ≠ [])
      (hlength : names.length = values.length) :
      Asks scope args .assign (.bind .here (names.zip values))
  | eval (items rest : List Value) (hargs : args = .qexpr items :: rest) :
      Asks scope args .eval (.reduce items)

/-- Making a list of the first argument asks for a list of its items. -/
theorem asks_of_firstNonempty {function : Builtin} {scope : ScopeId} {args : List Value}
    {effect : Effect} (pick : Value × List Value → List Value)
    (hpick : ∀ v vs, ∀ item ∈ pick (v, vs), item ∈ v :: vs)
    (h : ((firstNonempty args).bind fun list => giveList (pick list)) = .ok effect) :
    Asks scope args function effect := by
  obtain ⟨⟨v, vs⟩, hlist, hgive⟩ := exists_of_bind_eq_ok h
  obtain ⟨rest, rfl⟩ := firstNonempty_eq_ok hlist
  cases hgive
  exact .list _ _ fun item hitem => .inr ⟨v :: vs, List.mem_cons_self, hpick v vs item hitem⟩

/-- The list of what functions ask for is complete. -/
theorem asks_of_perform {function : Builtin} {scope : ScopeId} {args : List Value} {effect : Effect}
    (h : function.perform scope args = .ok effect) : Asks scope args function effect := by
  cases function with
  | arith op =>
      rcases calculate_eq_ok h with ⟨n, rfl⟩ | ⟨x, rfl⟩
      · exact .number op _ h
      · exact .number op _ h
  | list =>
      cases h
      exact .quotation .list rfl
  | quote =>
      cases h
      exact .quotation .quote rfl
  | head => exact asks_of_firstNonempty (fun list => [list.1]) (by simp) h
  | car => exact asks_of_firstNonempty (fun list => [list.1]) (by simp) h
  | tail =>
      exact asks_of_firstNonempty (fun list => list.2)
        (fun _ _ _ hitem => List.mem_cons_of_mem _ hitem) h
  | cdr =>
      exact asks_of_firstNonempty (fun list => list.2)
        (fun _ _ _ hitem => List.mem_cons_of_mem _ hitem) h
  | init =>
      exact asks_of_firstNonempty (fun list => (list.1 :: list.2).dropLast)
        (fun _ _ _ hitem => List.dropLast_subset _ hitem) h
  | join =>
      obtain ⟨items, hitems, hgive⟩ := exists_of_bind_eq_ok h
      cases hgive
      exact .list _ _ fun item hitem => .inr (mem_of_joinItems_eq_ok hitems item hitem)
  | len =>
      obtain ⟨items, -, rfl⟩ := exists_of_map_eq_ok h
      exact .length _
  | cons =>
      obtain ⟨v, items, rest, rfl, rfl⟩ := construct_eq_ok h
      refine .list _ _ fun item hitem => ?_
      rcases List.mem_cons.1 hitem with rfl | hitem
      · exact .inl List.mem_cons_self
      · exact .inr ⟨items, by simp, hitem⟩
  | eval =>
      obtain ⟨items, hitems, rfl⟩ := exists_of_map_eq_ok h
      obtain ⟨rest, hargs⟩ := firstList_eq_ok hitems
      exact .eval items rest hargs
  | define =>
      obtain ⟨names, values, hargs, hne, hlength, rfl⟩ := bindNames_eq_ok h
      exact .define names values hargs hne hlength
  | assign =>
      obtain ⟨names, values, hargs, hne, hlength, rfl⟩ := bindNames_eq_ok h
      exact .assign names values hargs hne hlength
  | lambda =>
      obtain ⟨formals, body, rest, rfl, rfl⟩ := abstract_eq_ok h
      exact .lambda formals body (by simp) (by simp)

end Builtin

end QuoteLisp
