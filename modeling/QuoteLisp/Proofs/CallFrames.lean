import QuoteLisp.Proofs.Definitions

/-!
# The scopes of calls

Which numbers of arguments a lambda takes is said twice: by the arity of its parameters, and by the
way in which the parameters are matched with the arguments. `Formals.matchArgs_eq` shows that the two
say the same, with the same faults, and what is matched with what: the positional names with the first
arguments, one for one, and the name of the rest with the list of all others.

So a call makes one scope, in the one that the lambda closes over, and this scope binds the names of
the parameters and nothing else (`Formals.BoundIn`). If no name stands twice among them, every
argument is found again in it (`Formals.BoundIn.keepsAll`).
-/

set_option autoImplicit false

namespace QuoteLisp

namespace Formals

/-- The definitions that parameters and arguments make: one for each positional name, and one of the
list of all further arguments. -/
def entries (formals : Formals) (args : List Value) : List (String × Value) :=
  formals.positional.zip args ++
    formals.rest.toList.map fun name => (name, .qexpr (args.drop formals.positional.length))

/-- Bindings of the names of parameters, and of no other names: the name of the rest to the list of
the arguments after the positional ones, and any other name to the argument at its last place. -/
structure BoundIn (formals : Formals) (args : List Value) (bindings : Bindings) : Prop where
  rest : ∀ name, formals.rest = some name →
    bindings.get? name = some (.qexpr (args.drop formals.positional.length))
  positional : ∀ name ∈ formals.positional, formals.rest ≠ some name →
    ∃ i v, LastAt formals.positional i name ∧ args[i]? = some v ∧ bindings.get? name = some v
  unbound : ∀ name, name ∉ formals.positional → formals.rest ≠ some name →
    bindings.get? name = none

/-- Every argument is bound: to the positional name at its place, or in the list of the rest. -/
def KeepsAll (formals : Formals) (args : List Value) (bindings : Bindings) : Prop :=
  ∀ {i v}, args[i]? = some v →
    (∃ name, formals.positional[i]? = some name ∧ bindings.get? name = some v) ∨
      ∃ name items j, formals.rest = some name ∧ bindings.get? name = some (.qexpr items) ∧
        i = formals.positional.length + j ∧ items[j]? = some v

variable {formals : Formals} {args : List Value}

/-- One more positional name takes one more argument. -/
theorem check_arity_cons (name : String) (names : List String) (rest : Option String) (v : Value)
    (args : List Value) :
    (Formals.mk (name :: names) rest).arity.check (v :: args).length =
      (Formals.mk names rest).arity.check args.length := by
  cases rest <;> simp [arity, Arity.check, Arity.contains, Arity.exactly]

/-- Parameters are matched with arguments of the right number, and refuse any other number as their
arity does. -/
theorem matchArgs_eq (formals : Formals) (args : List Value) :
    matchArgs formals.rest formals.positional args =
      (formals.arity.check args.length).map fun _ => formals.entries args := by
  obtain ⟨names, rest⟩ := formals
  dsimp only
  induction names generalizing args with
  | nil =>
      cases rest with
      | some name => rfl
      | none =>
          cases args with
          | nil => rfl
          | cons v args =>
              have hcheck : (Formals.mk [] none).arity.check (v :: args).length =
                  .error .tooManyArgs := by
                simp [arity, Arity.check, Arity.contains, Arity.exactly]
              rw [hcheck]
              rfl
  | cons name names ih =>
      cases args with
      | nil => cases rest <;> rfl
      | cons v args =>
          rw [check_arity_cons, matchArgs, ih]
          cases (Formals.mk names rest).arity.check args.length <;> rfl

/-- A lambda takes as many arguments as it has parameters, and more if it has a rest parameter. -/
theorem contains_arity_iff :
    formals.arity.contains args.length = true ↔
      formals.positional.length ≤ args.length ∧
        (formals.rest = none → args.length = formals.positional.length) := by
  obtain ⟨names, rest⟩ := formals
  cases rest with
  | none =>
      simp only [arity, Arity.contains, Arity.exactly, Bool.and_eq_true, decide_eq_true_eq,
        true_implies]
      omega
  | some name => simp [arity, Arity.contains]

/-- A call binds parameters only. -/
theorem mem_map_fst_entries {name : String} (h : name ∈ (formals.entries args).map Prod.fst) :
    name ∈ formals.positional ∨ formals.rest = some name := by
  obtain ⟨entry, hentry, rfl⟩ := List.mem_map.1 h
  rcases List.mem_append.1 hentry with hentry | hentry
  · exact .inl (List.of_mem_zip hentry).1
  · obtain ⟨name, hname, rfl⟩ := List.mem_map.1 hentry
    exact .inr (Option.mem_toList.1 hname)

/-- The names of parameters are bound in a scope that bound nothing before it got the definitions
that they make with enough arguments. -/
theorem boundIn_defineAll {heap : Heap} {s : ScopeId} (hs : s < heap.size)
    (hempty : heap.bindings s = .empty) (hlength : formals.positional.length ≤ args.length) :
    formals.BoundIn args ((heap.defineAll s (formals.entries args)).bindings s) where
  rest := by
    intro name hname
    simp only [entries, hname, Option.toList_some, List.map_cons, List.map_nil]
    exact Heap.get?_defineAll_append hs List.not_mem_nil
  positional := by
    intro name hname hrest
    obtain ⟨i, hlast⟩ := exists_lastAt hname
    have hi := (List.getElem?_eq_some_iff.1 hlast.getElem?_eq).1
    have hv : args[i]? = some _ := List.getElem?_eq_getElem (Nat.lt_of_lt_of_le hi hlength)
    refine ⟨i, _, hlast, hv, Heap.get?_defineAll_zip hs hlast hv ?_⟩
    -- the definition of the rest comes last, but it is of another name
    intro hmem
    simp only [List.map_map, List.mem_map, Option.mem_toList, Function.comp_apply] at hmem
    obtain ⟨other, hother, rfl⟩ := hmem
    exact hrest hother
  unbound := by
    intro name hname hrest
    have hmem : name ∉ (formals.entries args).map Prod.fst := fun hmem =>
      (mem_map_fst_entries hmem).elim hname hrest
    rw [Heap.get?_defineAll_of_not_mem hs hmem, hempty, Bindings.get?_empty]

/-- If no name stands twice among the parameters, every argument is kept. -/
theorem BoundIn.keepsAll {bindings : Bindings} (h : formals.BoundIn args bindings)
    (harity : formals.arity.contains args.length = true)
    (hnodup : (formals.positional ++ formals.rest.toList).Nodup) :
    formals.KeepsAll args bindings := by
  intro i v hv
  obtain ⟨-, hexact⟩ := contains_arity_iff.1 harity
  have hlt : i < args.length := (List.getElem?_eq_some_iff.1 hv).1
  obtain ⟨hpositional, -, hdisjoint⟩ := List.nodup_append.1 hnodup
  by_cases hi : i < formals.positional.length
  · have hname : formals.positional[i]? = some formals.positional[i] := List.getElem?_eq_getElem hi
    have hmem : formals.positional[i] ∈ formals.positional := List.getElem_mem hi
    have hrest : formals.rest ≠ some formals.positional[i] := fun heq =>
      hdisjoint _ hmem _ (Option.mem_toList.2 heq) rfl
    obtain ⟨j, w, hlast, hw, hget⟩ := h.positional _ hmem hrest
    obtain rfl : i = j := (lastAt_of_nodup hpositional hname).unique hlast
    rw [hv] at hw
    cases hw
    exact .inl ⟨_, hname, hget⟩
  · cases hrest : formals.rest with
    | none =>
        have hlength := hexact hrest
        omega
    | some name =>
        have hsum : i = formals.positional.length + (i - formals.positional.length) := by omega
        refine .inr ⟨name, _, _, rfl, h.rest name hrest, hsum, ?_⟩
        rw [List.getElem?_drop, ← hsum]
        exact hv

end Formals

namespace Heap

/-- A heap that has gained a scope, which lies in a scope that was there before. -/
structure Gains (heap : Heap) (closure frame : ScopeId) (heap' : Heap) : Prop where
  frame_eq : frame = heap.size
  size_eq : heap'.size = heap.size + 1
  parent?_eq : heap'.parent? frame = some closure
  depth_eq : heap'.depth frame = heap.depth closure + 1
  parents : ∀ d, d < heap.size → heap'.parent? d = heap.parent? d
  bindings : ∀ d, d < heap.size → heap'.bindings d = heap.bindings d

variable {heap heap' : Heap} {closure frame : ScopeId} {formals : Formals} {args : List Value}

/-- A call is refused as the arity refuses the number of its arguments; otherwise it makes a scope and
defines the parameters there. -/
theorem enter_eq (heap : Heap) (closure : ScopeId) (formals : Formals) (args : List Value) :
    heap.enter closure formals args = (formals.arity.check args.length).map fun _ =>
      (heap.size, (heap.spawn closure).2.defineAll heap.size (formals.entries args)) := by
  unfold enter
  rw [Formals.matchArgs_eq]
  cases formals.arity.check args.length with
  | error fault => rfl
  | ok =>
      exact congrArg (fun heap' => Except.ok (heap.size, heap')) (push_defineAll heap _ _)

/-- The depth of a scope is one more than that of the scope around it. -/
theorem depth_of_parent {d parent : ScopeId} (h : heap.parent? d = some parent) :
    heap.depth d = heap.depth parent + 1 := by
  have hpos : 0 < (heap.chain parent).length := List.length_pos_iff.2 (heap.chain_ne_nil parent)
  rw [depth, depth, chain_of_parent h, List.length_cons]
  omega

/-- A new scope with some entries is what a call gains, and no other scope is touched. -/
theorem gains_spawn_defineAll (hclosure : closure < heap.size) (entries : List (String × Value)) :
    heap.Gains closure heap.size ((heap.spawn closure).2.defineAll heap.size entries) := by
  have hparent : ((heap.spawn closure).2.defineAll heap.size entries).parent? heap.size =
      some closure := by
    rw [parent?_defineAll, parent?_spawn, if_pos rfl]
    simp [hclosure]
  have hold : ∀ d, d < heap.size →
      ((heap.spawn closure).2.defineAll heap.size entries).parent? d = heap.parent? d := by
    intro d hd
    rw [parent?_defineAll, parent?_spawn_of_lt hd]
  refine ⟨rfl, ?_, hparent, ?_, hold, ?_⟩
  · rw [size_defineAll, size_spawn]
  · rw [depth_of_parent hparent, depth, depth,
      chain_congr fun d hd => hold d (Nat.lt_of_le_of_lt hd hclosure)]
  · intro d hd
    rw [bindings_defineAll_of_ne (Nat.ne_of_lt hd), bindings_spawn]

/-- A call with the right number of arguments. -/
theorem enter_eq_ok_iff_contains :
    heap.enter closure formals args = .ok (frame, heap') ↔
      formals.arity.contains args.length = true ∧ frame = heap.size ∧
        heap' = (heap.spawn closure).2.defineAll heap.size (formals.entries args) := by
  rw [enter_eq, ← Arity.check_eq_ok_iff]
  cases formals.arity.check args.length with
  | error fault => simp [Except.map]
  | ok => simp [Except.map, eq_comm]

/-- A call fails exactly when the number of arguments is refused, and with that fault. -/
theorem enter_eq_error_iff {fault : Fault} :
    heap.enter closure formals args = .error fault ↔
      formals.arity.check args.length = .error fault := by
  rw [enter_eq]
  cases formals.arity.check args.length <;> simp [Except.map]

/-- **The scope of a call agrees with the declared arity and binds the parameters.** A call makes a
scope exactly when the arity of its parameters contains the number of its arguments. Otherwise it is
refused with the fault that the arity has for that number, and nothing is made. The scope is a new one
in the scope that the function closes over and one deeper, and all others are as they were. It binds
the names of the parameters and no others, and no argument is lost if they are all different. -/
theorem call_scopes_bind_parameters (hclosure : closure < heap.size) (formals : Formals)
    (args : List Value) :
    ((∃ frame heap', heap.enter closure formals args = .ok (frame, heap')) ↔
        formals.arity.contains args.length = true) ∧
      (∀ fault, heap.enter closure formals args = .error fault ↔
        formals.arity.check args.length = .error fault) ∧
      (∀ {fault}, formals.arity.check args.length = .error fault →
        ∀ (reduce : Reducer) (scope : ScopeId) (body : List Value),
          reduce.apply heap scope (.lambda formals body closure) args =
            some (.fault fault, heap)) ∧
      ∀ {frame heap'}, heap.enter closure formals args = .ok (frame, heap') →
        heap.Gains closure frame heap' ∧ formals.BoundIn args (heap'.bindings frame) ∧
          ((formals.positional ++ formals.rest.toList).Nodup →
            formals.KeepsAll args (heap'.bindings frame)) := by
  refine ⟨?_, fun _ => enter_eq_error_iff, ?_, ?_⟩
  · simp only [enter_eq_ok_iff_contains]
    constructor
    · rintro ⟨_, _, harity, -⟩
      exact harity
    · exact fun harity => ⟨_, _, harity, rfl, rfl⟩
  · intro fault hcheck reduce scope body
    simp only [Reducer.apply, enter_eq_error_iff.2 hcheck]
  · intro frame heap' henter
    obtain ⟨harity, rfl, rfl⟩ := enter_eq_ok_iff_contains.1 henter
    have hsize : heap.size < (heap.spawn closure).2.size := by
      rw [size_spawn]
      exact Nat.lt_succ_self _
    have hempty : (heap.spawn closure).2.bindings heap.size = .empty := by
      rw [bindings_spawn, bindings_of_size_le (Nat.le_refl _)]
    have hbound := Formals.boundIn_defineAll hsize hempty (Formals.contains_arity_iff.1 harity).1
    exact ⟨gains_spawn_defineAll hclosure _, hbound, hbound.keepsAll harity⟩

/-- A name that stands twice among the parameters is bound to the argument at its last place, and the
name of the rest to the list of the arguments behind all positional ones. With other numbers of
arguments the calls are refused. -/
theorem repeated_parameter_gets_last_argument :
    let heap := (initial.spawn 0).2
    let formals : Formals := ⟨["x", "y", "x"], some "r"⟩
    let args : List Value := [.integer 1, .integer 2, .integer 3, .integer 4, .integer 5]
    1 < heap.size ∧
      (∃ frame heap', heap.enter 1 formals args = .ok (frame, heap') ∧
        heap'.parent? frame = some 1 ∧ heap'.depth frame = heap.depth 1 + 1 ∧
        (heap'.bindings frame).get? "x" = some (.integer 3) ∧
        (heap'.bindings frame).get? "r" = some (.qexpr [.integer 4, .integer 5]) ∧
        (heap'.bindings frame).get? "z" = none) ∧
      heap.enter 1 formals [.integer 1] = .error .badArgsCount ∧
      heap.enter 1 ⟨["x"], none⟩ args = .error .tooManyArgs := by
  intro heap formals args
  have hclosure : 1 < heap.size := by decide
  obtain ⟨hok, -, -, hframe⟩ := call_scopes_bind_parameters hclosure formals args
  obtain ⟨-, hfew, -, -⟩ := call_scopes_bind_parameters hclosure formals [.integer 1]
  obtain ⟨-, hmany, -, -⟩ := call_scopes_bind_parameters hclosure ⟨["x"], none⟩ args
  obtain ⟨frame, heap', henter⟩ := hok.2 (by decide)
  obtain ⟨hgains, hbound, -⟩ := hframe henter
  obtain ⟨i, v, hlast, hv, hx⟩ := hbound.positional "x" (by decide) (by decide)
  obtain rfl : i = 2 := hlast.unique ⟨rfl, by decide⟩
  cases hv
  exact ⟨hclosure, ⟨frame, heap', henter, hgains.parent?_eq, hgains.depth_eq, hx,
    hbound.rest "r" rfl, hbound.unbound "z" (by decide) (by decide)⟩, (hfew _).2 rfl,
    (hmany _).2 rfl⟩

end Heap

end QuoteLisp
