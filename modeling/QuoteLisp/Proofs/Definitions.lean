import QuoteLisp.Proofs.Lookups
import QuoteLisp.Proofs.Reduction

/-!
# Definitions are made all or none

A call that defines names looks at all of its arguments before it writes. If they are a list of symbols
and as many values, every name is bound, to the value at its last place in the list
(`redefined_defineAll`); if anything is wrong with them, the call tells what (`DefinitionFault`) and
the heap stays as it is. No other builtin function asks for a definition, so but for the one that
reduces its argument none of them changes a heap.

The definitions of a list are made one after the other. What becomes of a name is told by its last
entry: those before it are overwritten, and those after it are of other names
(`Heap.get?_defineAll_append`).
-/

set_option autoImplicit false

namespace QuoteLisp

/-- The last place of a name in a list of names, counted from zero. -/
structure LastAt (names : List String) (i : Nat) (name : String) : Prop where
  getElem?_eq : names[i]? = some name
  not_mem_drop : name ∉ names.drop (i + 1)

/-- A name of a list has a last position in it. -/
theorem exists_lastAt {names : List String} {name : String} (h : name ∈ names) :
    ∃ i, LastAt names i name := by
  induction names with
  | nil => cases h
  | cons first names ih =>
      by_cases hlater : name ∈ names
      · obtain ⟨i, hi, hdrop⟩ := ih hlater
        exact ⟨i + 1, hi, hdrop⟩
      · have heq : name = first := (List.mem_cons.1 h).resolve_right hlater
        exact ⟨0, congrArg some heq.symm, hlater⟩

/-- No position of a name is behind its last. -/
theorem LastAt.le {names : List String} {i j : Nat} {name : String} (h : LastAt names i name)
    (hj : names[j]? = some name) : j ≤ i := by
  refine Nat.le_of_not_lt fun hlt => h.not_mem_drop ?_
  refine List.mem_of_getElem? (i := j - (i + 1)) ?_
  rw [List.getElem?_drop, Nat.add_sub_cancel' hlt]
  exact hj

/-- A name has one last position. -/
theorem LastAt.unique {names : List String} {i j : Nat} {name : String} (h : LastAt names i name)
    (h' : LastAt names j name) : i = j :=
  Nat.le_antisymm (h'.le h.getElem?_eq) (h.le h'.getElem?_eq)

/-- Where no name comes twice, every position is the last of its name. -/
theorem lastAt_of_nodup {names : List String} {i : Nat} {name : String} (hnodup : names.Nodup)
    (h : names[i]? = some name) : LastAt names i name where
  getElem?_eq := h
  not_mem_drop := by
    obtain ⟨hi, rfl⟩ := List.getElem?_eq_some_iff.1 h
    have hdrop : (names.drop i).Nodup := hnodup.sublist (List.drop_sublist i names)
    rw [List.drop_eq_getElem_cons hi] at hdrop
    exact (List.nodup_cons.1 hdrop).1

namespace Heap

/-- A heap in which a scope has got definitions: each listed name is bound to the value at its last
place, and everything else is as before. -/
structure Redefined (heap : Heap) (s : ScopeId) (names : List String) (values : List Value)
    (heap' : Heap) : Prop where
  size_eq : heap'.size = heap.size
  parent?_eq : ∀ d, heap'.parent? d = heap.parent? d
  elsewhere : ∀ d, d ≠ s → heap'.bindings d = heap.bindings d
  listed : ∀ name ∈ names, ∃ i v, LastAt names i name ∧ values[i]? = some v ∧
    (heap'.bindings s).get? name = some v
  unlisted : ∀ name, name ∉ names → (heap'.bindings s).get? name = (heap.bindings s).get? name

variable {heap : Heap} {s d : ScopeId} {name : String} {v : Value} {names : List String}
  {values : List Value} {entries : List (String × Value)}

/-! ### Several definitions in one scope -/

/-- Definitions make no scope. -/
@[simp]
theorem size_defineAll (heap : Heap) (s : ScopeId) (entries : List (String × Value)) :
    (heap.defineAll s entries).size = heap.size := by
  induction entries generalizing heap with
  | nil => rfl
  | cons entry entries ih => exact (ih _).trans (size_define heap s entry.1 entry.2)

/-- Definitions leave every scope where it lies. -/
@[simp]
theorem parent?_defineAll (heap : Heap) (s : ScopeId) (entries : List (String × Value))
    (d : ScopeId) : (heap.defineAll s entries).parent? d = heap.parent? d := by
  induction entries generalizing heap with
  | nil => rfl
  | cons entry entries ih => exact (ih _).trans (parent?_define heap s entry.1 entry.2 d)

/-- Definitions in one scope leave the bindings of every other alone. -/
theorem bindings_defineAll_of_ne (h : d ≠ s) (heap : Heap) (entries : List (String × Value)) :
    (heap.defineAll s entries).bindings d = heap.bindings d := by
  induction entries generalizing heap with
  | nil => rfl
  | cons entry entries ih => exact (ih _).trans (bindings_define_of_ne h heap entry.1 entry.2)

/-- Entries are defined one after the other. -/
theorem defineAll_append (heap : Heap) (s : ScopeId) (entries later : List (String × Value)) :
    heap.defineAll s (entries ++ later) = (heap.defineAll s entries).defineAll s later :=
  List.foldl_append

/-- A name that is not among the entries keeps what it was bound to. -/
theorem get?_defineAll_of_not_mem (hs : s < heap.size) (h : name ∉ entries.map Prod.fst) :
    ((heap.defineAll s entries).bindings s).get? name = (heap.bindings s).get? name := by
  induction entries generalizing heap with
  | nil => rfl
  | cons entry entries ih =>
      rw [List.map_cons, List.mem_cons, not_or] at h
      have hs' : s < (heap.define s entry.1 entry.2).size := by rwa [size_define]
      exact (ih hs' h.2).trans (get?_bindings_define_of_ne hs fun heq => h.1 heq.2)

/-- A name is bound to the value of its last entry. -/
theorem get?_defineAll_append {later : List (String × Value)} (hs : s < heap.size)
    (h : name ∉ later.map Prod.fst) :
    ((heap.defineAll s (entries ++ (name, v) :: later)).bindings s).get? name = some v := by
  have hs' : s < (heap.defineAll s entries).size := by rwa [size_defineAll]
  have hdefine : (((heap.defineAll s entries).define s name v).bindings s).get? name = some v := by
    rw [get?_bindings_define hs', if_pos ⟨rfl, rfl⟩]
  rw [defineAll_append]
  exact (get?_defineAll_of_not_mem (by rwa [size_define]) h).trans hdefine

/-- Names that are paired with values are bound to those at their last places, if no entry that comes
after the pairs is in the way. -/
theorem get?_defineAll_zip {i : Nat} {later : List (String × Value)} (hs : s < heap.size)
    (hlast : LastAt names i name) (hv : values[i]? = some v) (hlater : name ∉ later.map Prod.fst) :
    ((heap.defineAll s (names.zip values ++ later)).bindings s).get? name = some v := by
  have hentry : (names.zip values)[i]? = some (name, v) :=
    List.getElem?_zip_eq_some.2 ⟨hlast.getElem?_eq, hv⟩
  have hsplit : names.zip values ++ later = (names.zip values).take i ++
      (name, v) :: ((names.zip values).drop (i + 1) ++ later) := by
    obtain ⟨hi, hget⟩ := List.getElem?_eq_some_iff.1 hentry
    have hdrop := List.drop_eq_getElem_cons hi
    rw [hget] at hdrop
    rw [← List.cons_append, ← hdrop, ← List.append_assoc, List.take_append_drop]
  rw [hsplit]
  refine get?_defineAll_append hs ?_
  rw [List.map_append, List.mem_append, not_or]
  refine ⟨?_, hlater⟩
  intro hmem
  obtain ⟨entry, hentry, heq⟩ := List.mem_map.1 hmem
  rw [List.zip, List.drop_zipWith] at hentry
  exact hlast.not_mem_drop (heq ▸ (List.of_mem_zip hentry).1)

/-- Defining names with as many values redefines the scope: every listed name has the value at its
last position, and nothing else changes. -/
theorem redefined_defineAll (hs : s < heap.size) (hlength : names.length = values.length) :
    heap.Redefined s names values (heap.defineAll s (names.zip values)) where
  size_eq := size_defineAll heap s _
  parent?_eq := parent?_defineAll heap s _
  elsewhere := fun _ hd => bindings_defineAll_of_ne hd heap _
  listed := by
    intro name hname
    obtain ⟨i, hlast⟩ := exists_lastAt hname
    have hi : i < values.length := hlength ▸ (List.getElem?_eq_some_iff.1 hlast.getElem?_eq).1
    have hv : values[i]? = some values[i] := List.getElem?_eq_getElem hi
    have hget : ((heap.defineAll s (names.zip values ++ [])).bindings s).get? name = some _ :=
      get?_defineAll_zip hs hlast hv List.not_mem_nil
    rw [List.append_nil] at hget
    exact ⟨i, values[i], hlast, hv, hget⟩
  unlisted := by
    intro name hname
    refine get?_defineAll_of_not_mem hs ?_
    rwa [List.map_fst_zip (Nat.le_of_eq hlength)]

end Heap

/-! ### The arguments of a definition -/

/-- Arguments that make definitions: one or more symbols in a list of data, and as many values. -/
structure IsDefinition (args : List Value) (names : List String) (values : List Value) : Prop where
  args_eq : args = .qexpr (names.map .symbol) :: values
  names_ne : names ≠ []
  length_eq : names.length = values.length

/-- What is wrong with arguments that make no definitions. -/
inductive DefinitionFault : List Value → Fault → Prop where
  | tooFew {args : List Value} : args.length < 2 → DefinitionFault args .badArgsCount
  -- with two arguments or more, the types are looked at before the numbers
  | notList {target : Value} {values : List Value} : values ≠ [] →
      (∀ items, target ≠ .qexpr items) → DefinitionFault (target :: values) .badType
  | notSymbol {items values : List Value} {item : Value} : values ≠ [] → item ∈ items →
      (∀ name, item ≠ .symbol name) → DefinitionFault (.qexpr items :: values) .badType
  | miscounted {names : List String} {values : List Value} : values ≠ [] →
      names = [] ∨ names.length ≠ values.length →
      DefinitionFault (.qexpr (names.map .symbol) :: values) .badArgsCount

/-- Items are symbols, all of them, or one is not. -/
theorem exists_names_or_not_symbol (items : List Value) :
    (∃ names : List String, items = names.map .symbol) ∨
      ∃ item ∈ items, ∀ name, item ≠ .symbol name := by
  induction items with
  | nil => exact .inl ⟨[], rfl⟩
  | cons item items ih =>
      rcases ih with ⟨names, rfl⟩ | ⟨other, hmem, hother⟩
      · cases item with
        | symbol name => exact .inl ⟨name :: names, rfl⟩
        | _ => exact .inr ⟨_, List.mem_cons_self, fun name heq => nomatch heq⟩
      · exact .inr ⟨other, List.mem_cons_of_mem _ hmem, hother⟩

/-- Arguments make definitions, or something is wrong with them. -/
theorem isDefinition_or_fault (args : List Value) :
    (∃ names values, IsDefinition args names values) ∨ ∃ fault, DefinitionFault args fault := by
  cases args with
  | nil => exact .inr ⟨_, .tooFew (by simp)⟩
  | cons target values =>
      by_cases hvalues : values = []
      · exact .inr ⟨_, .tooFew (by simp [hvalues])⟩
      · cases target with
        | qexpr items =>
            rcases exists_names_or_not_symbol items with ⟨names, rfl⟩ | ⟨item, hmem, hitem⟩
            · by_cases hcount : names = [] ∨ names.length ≠ values.length
              · exact .inr ⟨_, .miscounted hvalues hcount⟩
              · rw [not_or, Decidable.not_not] at hcount
                exact .inl ⟨names, values, rfl, hcount.1, hcount.2⟩
            · exact .inr ⟨_, .notSymbol hvalues hmem hitem⟩
        | _ => exact .inr ⟨_, .notList hvalues fun items heq => nomatch heq⟩

/-! ### Calls -/

namespace Builtin

/-- Where a function that makes definitions makes them. -/
def place? : Builtin → Option Place
  | define => some .global
  | assign => some .here
  | _ => none

variable {function : Builtin} {place : Place} {scope : ScopeId} {args : List Value} {fault : Fault}

/-- The builtin functions that define take at least two arguments. -/
theorem arity_of_place? (h : function.place? = some place) : function.arity = .atLeast 2 := by
  cases function <;> cases h <;> rfl

/-- The builtin functions that define do nothing but bind names. -/
theorem perform_of_place? (h : function.place? = some place) (scope : ScopeId)
    (args : List Value) : function.perform scope args = bindNames place args := by
  cases function <;> cases h <;> rfl

/-- A list with an item that is no symbol is no list of names. -/
theorem toNames_of_not_symbol {items : List Value} {item : Value} (hmem : item ∈ items)
    (hitem : ∀ name, item ≠ .symbol name) : toNames items = .error .badType := by
  induction items with
  | nil => cases hmem
  | cons first items ih =>
      cases first with
      | symbol name =>
          have hrest := (List.mem_cons.1 hmem).resolve_left (hitem name)
          simp only [toNames, Value.toName, ih hrest]
      | _ => rfl

/-- Something wrong with two arguments or more is found when they are looked at. -/
theorem bindNames_of_fault (place : Place) (hlength : ¬ args.length < 2)
    (h : DefinitionFault args fault) : bindNames place args = .error fault := by
  cases h with
  | tooFew hfew => exact absurd hfew hlength
  | @notList target _ _ htarget =>
      cases target with
      | qexpr items => exact absurd rfl (htarget items)
      | _ => rfl
  | notSymbol _ hmem hitem => simp only [bindNames, Value.toItems, toNames_of_not_symbol hmem hitem]
  | @miscounted names values _ hcount =>
      have hcond : (names.isEmpty || names.length != values.length) = true := by
        simpa using hcount
      simp only [bindNames, Value.toItems, toNames_map_symbol, hcond, if_true]

/-- A function that is neither for definitions nor for evaluation gives a value. -/
theorem exists_give_of_perform {effect : Effect} (hplace : function.place? = none)
    (heval : function ≠ .eval) (h : function.perform scope args = .ok effect) :
    ∃ v, effect = .give v := by
  cases asks_of_perform h with
  | define | assign => cases hplace
  | eval => exact absurd rfl heval
  | _ => exact ⟨_, rfl⟩

end Builtin

namespace Place

/-- The scope that definitions at a place go to. -/
def target (heap : Heap) (scope : ScopeId) : Place → ScopeId
  | global => heap.root scope
  | here => scope

/-- The scope that a definition goes to exists. -/
theorem target_lt {heap : Heap} {scope : ScopeId} (hscope : scope < heap.size) (place : Place) :
    place.target heap scope < heap.size := by
  cases place with
  | global => exact Nat.lt_of_le_of_lt (heap.within_root scope).le hscope
  | here => exact hscope

end Place

namespace Reducer

variable {reduce : Reducer} {function : Builtin} {place : Place} {heap : Heap} {scope : ScopeId}
  {args : List Value} {fault : Fault}

/-- A definition in order gives `()` and binds all names. -/
theorem callAs_of_isDefinition {names : List String} {values : List Value}
    (hplace : function.place? = some place) (h : IsDefinition args names values) :
    reduce.callAs function.arity heap scope function args =
      some (.unit, heap.defineAll (place.target heap scope) (names.zip values)) := by
  rw [h.args_eq, callAs_bindNames function place (Builtin.arity_of_place? hplace)
    (Builtin.perform_of_place? hplace scope) h.names_ne h.length_eq]
  cases place <;> rfl

/-- A definition that is not in order gives its fault and leaves the heap as it was. -/
theorem callAs_of_fault (hplace : function.place? = some place) (h : DefinitionFault args fault) :
    reduce.callAs function.arity heap scope function args = some (.fault fault, heap) := by
  have harity := Builtin.arity_of_place? hplace
  by_cases hlength : args.length < 2
  · have hcheck : function.arity.check args.length = .error .badArgsCount := by
      simp [harity, Arity.check, Arity.contains, Nat.not_le_of_lt hlength]
    have hfault : fault = .badArgsCount := by
      cases h with
      | tooFew | miscounted => rfl
      | notList hvalues | notSymbol hvalues =>
          have hpos := List.length_pos_iff.2 hvalues
          rw [List.length_cons] at hlength
          omega
    simp only [callAs, hcheck, hfault]
  · have hcheck : function.arity.check args.length = .ok () := by
      simp [harity, Arity.check_eq_ok_iff, Arity.contains, Nat.le_of_not_lt hlength]
    simp only [callAs, hcheck, Builtin.perform_of_place? hplace,
      Builtin.bindNames_of_fault place hlength h]

/-- A call that defines nothing and evaluates nothing leaves the heap as it is. -/
theorem callAs_of_no_place (hplace : function.place? = none) (heval : function ≠ .eval)
    (arity : Arity) (heap : Heap) (scope : ScopeId) (args : List Value) :
    ∃ r, reduce.callAs arity heap scope function args = some (r, heap) := by
  unfold callAs
  split
  · exact ⟨_, rfl⟩
  · split
    · exact ⟨_, rfl⟩
    · next effect heffect =>
        obtain ⟨v, rfl⟩ := Builtin.exists_give_of_perform hplace heval heffect
        exact ⟨v, rfl⟩

end Reducer

/-- A call that defines names, in a given scope, all of them or none. It succeeds exactly when its
arguments are right; then it has no result and the scope has got the definitions. Otherwise something
is wrong with the arguments, the call tells what, and the heap is as it was. -/
structure AllOrNone (heap : Heap) (target : ScopeId) (args : List Value) (outcome : Outcome) :
    Prop where
  succeeds_iff : (∃ r heap', outcome = some (r, heap') ∧ r.isFault = false) ↔
    ∃ names values, IsDefinition args names values
  all : ∀ {names values}, IsDefinition args names values →
    ∃ heap', outcome = some (.unit, heap') ∧ heap.Redefined target names values heap'
  none : (¬ ∃ names values, IsDefinition args names values) → ∃ fault, DefinitionFault args fault
  fault_eq : ∀ {fault}, DefinitionFault args fault → outcome = some (.fault fault, heap)

/-- A builtin function that defines binds all of its names or, with a fault, none. -/
theorem Reducer.callAs_allOrNone (reduce : Reducer) {function : Builtin} {place : Place}
    (hplace : function.place? = some place) {heap : Heap} {scope : ScopeId}
    (hscope : scope < heap.size) (args : List Value) :
    AllOrNone heap (place.target heap scope) args
      (reduce.callAs function.arity heap scope function args) where
  succeeds_iff := by
    constructor
    · rintro ⟨r, heap', hcall, hr⟩
      refine (isDefinition_or_fault args).resolve_right ?_
      rintro ⟨fault, hfault⟩
      rw [callAs_of_fault hplace hfault] at hcall
      cases hcall
      cases hr
    · rintro ⟨names, values, h⟩
      exact ⟨_, _, callAs_of_isDefinition hplace h, rfl⟩
  all h := ⟨_, callAs_of_isDefinition hplace h,
    Heap.redefined_defineAll (place.target_lt hscope) h.length_eq⟩
  none h := (isDefinition_or_fault args).resolve_left h
  fault_eq := callAs_of_fault hplace

/-- **Definitions are made all or none, and by two functions only.** A call of one of the two that
define names succeeds exactly when its arguments are one or more symbols and as many values. Then
each of them is bound to the value at its last place, by one function in the root and by the other in
the scope at hand, while all other names and scopes are as they were. Otherwise nothing has changed.
A call of any other function but the one that evaluates its argument leaves the heap as it was,
whatever comes of it. -/
theorem definitions_are_all_or_none (bound : Nat) {heap : Heap} {scope : ScopeId}
    (hscope : scope < heap.size) (args : List Value) :
    AllOrNone heap (heap.root scope) args
        (callBuiltin bound Builtin.define.arity heap scope .define args) ∧
      AllOrNone heap scope args (callBuiltin bound Builtin.assign.arity heap scope .assign args) ∧
      ∀ {function : Builtin}, function ≠ .define → function ≠ .assign → function ≠ .eval →
        ∀ arity, ∃ r, callBuiltin bound arity heap scope function args = some (r, heap) := by
  have hglobal : Builtin.define.place? = some .global := rfl
  have hhere : Builtin.assign.place? = some .here := rfl
  refine ⟨Reducer.callAs_allOrNone _ hglobal hscope args,
    Reducer.callAs_allOrNone _ hhere hscope args, ?_⟩
  intro function hdefine hassign heval arity
  have hplace : function.place? = none := by
    cases function with
    | define => exact absurd rfl hdefine
    | assign => exact absurd rfl hassign
    | _ => rfl
  exact Reducer.callAs_of_no_place hplace heval arity heap scope args

/-- Of three definitions in an inner scope two are of one name, which is bound to the later value. With
a number among the names nothing is defined, not even the name before it. -/
theorem repeated_name_gets_last_value :
    let heap := (Heap.initial.spawn 0).2
    let args : List Value := [.qexpr [.symbol "x", .symbol "y", .symbol "x"], .integer 1,
      .integer 2, .integer 3]
    let badArgs : List Value := [.qexpr [.symbol "x", .integer 0], .integer 1, .integer 2]
    1 < heap.size ∧
      (∃ heap', callBuiltin 0 Builtin.assign.arity heap 1 .assign args = some (.unit, heap') ∧
        (heap'.bindings 1).get? "x" = some (.integer 3) ∧
        heap'.bindings 0 = heap.bindings 0) ∧
      callBuiltin 0 Builtin.define.arity heap 1 .define badArgs =
        some (.fault .badType, heap) := by
  intro heap args badArgs
  have hscope : 1 < heap.size := by decide
  have hargs : IsDefinition args ["x", "y", "x"] [.integer 1, .integer 2, .integer 3] :=
    ⟨rfl, by decide, rfl⟩
  have hbad : DefinitionFault badArgs .badType :=
    .notSymbol (by simp) (List.mem_cons_of_mem _ List.mem_cons_self) (by simp)
  obtain ⟨-, hassign, -⟩ := definitions_are_all_or_none 0 hscope args
  obtain ⟨hdefine, -, -⟩ := definitions_are_all_or_none 0 hscope badArgs
  obtain ⟨heap', hcall, hredefined⟩ := hassign.all hargs
  obtain ⟨i, v, hlast, hv, hget⟩ := hredefined.listed "x" (by decide)
  obtain rfl : i = 2 := hlast.unique ⟨rfl, by decide⟩
  cases hv
  exact ⟨hscope, ⟨heap', hcall, hget, hredefined.elsewhere 0 (by decide)⟩, hdefine.fault_eq hbad⟩

end QuoteLisp
