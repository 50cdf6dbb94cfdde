import Mathlib
import QuoteLisp.Proofs.Demands
import QuoteLisp.Proofs.Sessions

/-!
# Where faults can be

A fault ends the reduction of the list around it, so it is never passed on: it is not bound, and no
function that wants its arguments reduced is called with one. But a literal out of range is a fault in
the program itself, and a quoting function or a list of data holds it as it is. From there it can be
moved, bound inside a list, made part of the body of a lambda, and reduced again. This file shows that
these are the only faults inside other values.

The invariant is that the faults among the parts of what is to be reduced come from literals, and
those strictly inside of a result or a binding as well, where a binding is no fault itself
(`Discipline.confined`). It is kept by every reduction, so it holds after every line of a session, and
at every demand of an evaluation.
-/

set_option autoImplicit false

namespace QuoteLisp

/-! ### Literals -/

/-- A line is read, and one of its literals means no number but a fault. -/
def RefusesLiteral (line : List Char) : Prop :=
  ∃ tree, Node.read line = .ok tree ∧
    ∃ leaf ∈ tree.leaves, Value.ofLeaf leaf.1 leaf.2 = .fault .badNum

/-- A fault in a program is that of a literal. -/
theorem Value.refusesLiteral_of_parse {line : List Char} {program : Value} {cause : Fault}
    (h : parse line = .ok program) (hcause : .fault cause ∈ program.parts) :
    cause = .badNum ∧ RefusesLiteral line := by
  obtain rfl : cause = .badNum := plain_of_parse h _ hcause
  obtain ⟨tree, htree, hnode⟩ := exists_tree_of_parse h
  rcases isList_or_ofLeaf_of_ofNode hnode _ hcause with hlist | ⟨leaf, hleaf, heq⟩
  · cases hlist
  · exact ⟨rfl, tree, htree, leaf, hleaf, heq.symm⟩

/-! ### The invariant -/

namespace Value

/-- All values inside a value, at any depth, but not the value itself. -/
def inner : Value → List Value
  | .lambda _ body _ => partsAll body
  | .sexpr items => partsAll items
  | .qexpr items => partsAll items
  | .integer _ | .double _ | .fault _ | .symbol _ | .builtin _ => []

/-- The parts of a value are the value itself and those inside. -/
theorem parts_eq_cons_inner (v : Value) : v.parts = v :: v.inner := by
  cases v <;> rfl

end Value

/-- The faults among some values are those of literals that were refused in these lines. -/
def FromLiterals (lines : List (List Char)) (vs : List Value) : Prop :=
  ∀ cause, .fault cause ∈ vs → cause = .badNum ∧ ∃ line ∈ lines, RefusesLiteral line

namespace FromLiterals

variable {lines : List (List Char)}

/-- The faults among the parts of several values come from literals when those of each do. -/
theorem partsAll_iff {vs : List Value} :
    FromLiterals lines (Value.partsAll vs) ↔ ∀ v ∈ vs, FromLiterals lines v.parts := by
  induction vs with
  | nil => simp [FromLiterals, Value.partsAll]
  | cons v vs ih =>
      simp only [FromLiterals, Value.partsAll, List.mem_append, List.forall_mem_cons] at ih ⊢
      grind

/-- The faults of a value that is no fault itself are inside of it. -/
theorem parts_iff {v : Value} (hv : v.isFault = false) :
    FromLiterals lines v.parts ↔ FromLiterals lines v.inner := by
  have hne : ∀ cause, .fault cause ≠ v := by
    rintro cause rfl
    cases hv
  simp [FromLiterals, Value.parts_eq_cons_inner, hne]

/-- Where the faults of all parts come from literals, those of the parts inside do. -/
theorem inner_of_parts {v : Value} (h : FromLiterals lines v.parts) :
    FromLiterals lines v.inner := by
  intro cause hcause
  apply h
  rw [Value.parts_eq_cons_inner]
  exact List.mem_cons_of_mem _ hcause

/-- No part of a symbol is a fault. -/
theorem symbol (name : String) : FromLiterals lines (Value.symbol name).parts := by
  simp [FromLiterals, Value.parts]

/-- The faults of a program come from literals that were refused in its line. -/
theorem of_parse {line : List Char} {program : Value} (hline : line ∈ lines)
    (h : Value.parse line = .ok program) : FromLiterals lines program.parts := by
  intro cause hcause
  obtain ⟨hcause, hrefuses⟩ := Value.refusesLiteral_of_parse h hcause
  exact ⟨hcause, line, hline, hrefuses⟩

end FromLiterals

/-- A heap in which no name is bound to a fault, and the faults inside of what is bound are those of
literals that were refused in these lines. -/
structure Heap.Confines (lines : List (List Char)) (heap : Heap) : Prop where
  not_fault : ∀ {d name v}, (heap.bindings d).get? name = some v → v.isFault = false
  inner : ∀ {d name v}, (heap.bindings d).get? name = some v → FromLiterals lines v.inner

/-- The first heap binds no fault. -/
theorem Heap.confines_initial (lines : List (List Char)) : Heap.initial.Confines lines where
  not_fault hget := by simp [Bindings.get?_empty] at hget
  inner hget := by simp [Bindings.get?_empty] at hget

/-- Confined faults: those of literals may be in what is reduced, and inside of what comes out or is
bound; what comes out may be a fault itself, but not one of an invalid operator. -/
def Discipline.confined (lines : List (List Char)) : Discipline where
  heapOk := Heap.Confines lines
  scopeOk _ _ := True
  sourceOk _ v := FromLiterals lines v.parts
  resultOk _ v := FromLiterals lines v.inner ∧ v ≠ .fault .badOp
  argOk v := v.isFault = false
  change _ _ _ := True
  change_refl _ _ := trivial
  change_trans _ _ := trivial
  scope_mono _ _ := trivial
  source_mono _ hv := hv
  result_mono _ hv := hv
  result_of_normal := by
    intro heap v hv _
    refine ⟨hv.inner_of_parts, ?_⟩
    rintro rfl
    cases (hv .badOp List.mem_cons_self).1
  arg_of_not_fault hv := hv
  source_of_result hv harg := (FromLiterals.parts_iff harg).2 hv.1
  source_sexpr := by
    intro heap items
    rw [FromLiterals.parts_iff rfl]
    exact FromLiterals.partsAll_iff
  result_qexpr := by simp [Value.inner, FromLiterals.partsAll_iff]
  result_lambda := by simp [Value.inner, FromLiterals.partsAll_iff, FromLiterals.symbol]
  result_integer := by simp [Value.inner, FromLiterals]
  result_fault := by simp [Value.inner, FromLiterals]
  result_builtin := by simp [Value.inner, FromLiterals]
  result_calculate := by
    intro heap op args v _ hcalc
    rcases Builtin.calculate_eq_ok hcalc with ⟨n, heq⟩ | ⟨x, heq⟩ <;> cases heq <;>
      simp [Value.inner, FromLiterals]
  result_binding := by
    intro heap scope d name v hheap _ _ hget
    refine ⟨hheap.inner hget, ?_⟩
    rintro rfl
    cases hheap.not_fault hget
  define name hheap _ _ hv harg :=
    ⟨⟨Heap.forall_define hheap.not_fault harg, Heap.forall_define hheap.inner hv.1⟩, trivial⟩
  spawn := by
    intro heap closure hheap _
    have hget : ∀ d, (heap.spawn closure).2.bindings d = heap.bindings d :=
      heap.bindings_spawn closure
    exact ⟨⟨fun h => hheap.not_fault (hget _ ▸ h), fun h => hheap.inner (hget _ ▸ h)⟩, trivial⟩
  change_of_call _ _ := trivial

/-! ### Lines and demands -/

/-- A session confines faults to literals of its lines, and of any others besides. -/
theorem Session.Runs.confines {lines all : List (List Char)} {heap : Heap}
    (h : Session.Runs Heap.globalId Heap.initial lines heap) (hall : ∀ line ∈ lines, line ∈ all) :
    heap.Confines all := by
  have hprograms : ∀ line ∈ lines, ∀ program, Value.parse line = .ok program →
      ∀ heap, (Discipline.confined all).sourceOk heap program :=
    fun line hline _ hparse _ => .of_parse (hall line hline) hparse
  exact ((Discipline.confined all).runs_of_programs hprograms (Heap.confines_initial all) trivial
    h).1

/-- A name that means nothing is bound nowhere around the scope and names no builtin function. -/
theorem Heap.lookup_eq_error {heap : Heap} {scope : ScopeId} {name : String} {cause : Fault}
    (h : heap.lookup scope name = .error cause) :
    cause = .unboundSymbol ∧ (∀ d ∈ heap.chain scope, (heap.bindings d).get? name = none) ∧
      Builtin.ofName? name = none := by
  refine ⟨Heap.eq_unboundSymbol_of_lookup h, ?_⟩
  unfold lookup at h
  split at h
  · cases h
  · next hnone =>
      split at h
      · cases h
      · next hname => exact ⟨List.findSome?_eq_none_iff.1 hnone, hname⟩

/-- Where no name is bound to a fault, a symbol that reduces to one means nothing. -/
theorem Finishes.lookup_eq_error {lines : List (List Char)} {heap heap' : Heap} {scope : ScopeId}
    {name : String} {cause : Fault} (hheap : heap.Confines lines)
    (h : Finishes heap scope (.symbol name) (.fault cause) heap') :
    heap.lookup scope name = .error cause := by
  obtain ⟨bound, hout⟩ := h
  rw [eval_symbol] at hout
  cases hlookup : heap.lookup scope name with
  | error cause' =>
      rw [hlookup] at hout
      cases hout
      rfl
  | ok v =>
      rw [hlookup] at hout
      cases hout
      rcases Heap.lookup_eq_ok hlookup with ⟨d, -, hget⟩ | ⟨b, hb⟩
      · cases hheap.not_fault hget
      · cases hb

/-- A result has no fault inside of it but those of literals, and nowhere that of an invalid
operator. -/
theorem Finishes.fromLiterals {lines : List (List Char)} {heap heap' : Heap} {scope : ScopeId}
    {v r : Value} (hheap : heap.Confines lines) (hv : FromLiterals lines v.parts)
    (h : Finishes heap scope v r heap') :
    FromLiterals lines r.inner ∧ .fault .badOp ∉ r.parts := by
  have hkeeps := (Discipline.confined lines).reduces h.reduces hheap trivial hv
  obtain ⟨hinner, hne⟩ := hkeeps.resultOk
  refine ⟨hinner, ?_⟩
  rw [Value.parts_eq_cons_inner, List.mem_cons, not_or]
  refine ⟨fun heq => hne heq.symm, fun hmem => ?_⟩
  cases (hinner .badOp hmem).1

/-- **Faults are confined.** After any lines in the initial heap no name is bound to a fault, and
faults inside of what is bound are those of literals refused in these lines. The result of one more
line has only such faults inside of it, and is not and does not hold that of an invalid operator. So
it is also all the while that the line is evaluated, at every demand its program reaches: no name is
bound to a fault, a value that does not quote is called with no fault among its arguments, a symbol
reduces to a fault only when it is unbound, that is when no scope around it and no builtin function
has its name, and every result has only faults of literals inside of it and nowhere that of an invalid
operator. -/
theorem faults_are_confined {lines : List (List Char)} {heap : Heap}
    (hruns : Session.Runs Heap.globalId Heap.initial lines heap) :
    heap.Confines lines ∧
    (∀ {bound : Nat} {line : List Char} {r : Value} {heap' : Heap},
      Session.evalLine bound heap Heap.globalId line = some (.ok r, heap') →
      heap'.Confines (lines ++ [line]) ∧ FromLiterals (lines ++ [line]) r.inner ∧
        .fault .badOp ∉ r.parts) ∧
    ∀ {line : List Char} {program : Value}, Value.parse line = .ok program →
      (∀ {demand : Demand}, (Demand.reduce heap Heap.globalId program).Reaches demand →
        demand.heap.Confines (lines ++ [line])) ∧
      (∀ {heap' : Heap} {scope : ScopeId} {f : Value} {args : List Value},
        (Demand.reduce heap Heap.globalId program).Reaches (.call heap' scope f args) →
        f.isQuoting = false → ∀ arg ∈ args, arg.isFault = false) ∧
      (∀ {heap' heap'' : Heap} {scope : ScopeId} {name : String} {cause : Fault},
        (Demand.reduce heap Heap.globalId program).Reaches (.reduce heap' scope (.symbol name)) →
        Finishes heap' scope (.symbol name) (.fault cause) heap'' →
        cause = .unboundSymbol ∧ (∀ d ∈ heap'.chain scope, (heap'.bindings d).get? name = none) ∧
          Builtin.ofName? name = none) ∧
      (∀ {heap' heap'' : Heap} {scope : ScopeId} {v r : Value},
        (Demand.reduce heap Heap.globalId program).Reaches (.reduce heap' scope v) →
        Finishes heap' scope v r heap'' →
        FromLiterals (lines ++ [line]) r.inner ∧ .fault .badOp ∉ r.parts) := by
  refine ⟨hruns.confines fun _ hmem => hmem, ?_, ?_⟩
  · intro bound line r heap' hline
    have hheap := hruns.confines fun _ hmem => List.mem_append_left [line] hmem
    rcases Session.evalLine_cases hline with ⟨cause, hcause, -⟩ | ⟨program, w, hparse, hw, hfinishes⟩
    · cases hcause
    · cases hw
      have hprogram : FromLiterals (lines ++ [line]) program.parts := .of_parse (by simp) hparse
      have hkeeps := (Discipline.confined _).reduces hfinishes.reduces hheap trivial hprogram
      exact ⟨hkeeps.heapOk, hfinishes.fromLiterals hheap hprogram⟩
  · intro line program hparse
    have hheap := hruns.confines fun _ hmem => List.mem_append_left [line] hmem
    have hprogram : FromLiterals (lines ++ [line]) program.parts := .of_parse (by simp) hparse
    have hstart : (Discipline.confined (lines ++ [line])).DemandOk
        (.reduce heap Heap.globalId program) := ⟨hheap, trivial, hprogram⟩
    refine ⟨?_, ?_, ?_, ?_⟩
    · intro demand hreaches
      exact (Discipline.demandOk_of_reaches hstart hreaches).heapOk
    · intro heap' scope f args hreaches hquoting arg harg
      obtain ⟨-, -, -, hargs⟩ := Discipline.demandOk_of_reaches hstart hreaches
      exact (hargs hquoting arg harg).2
    · intro heap' heap'' scope name cause hreaches hfinishes
      obtain ⟨hheap', -, -⟩ := Discipline.demandOk_of_reaches hstart hreaches
      exact Heap.lookup_eq_error (hfinishes.lookup_eq_error hheap')
    · intro heap' heap'' scope v r hreaches hfinishes
      obtain ⟨hheap', -, hv⟩ := Discipline.demandOk_of_reaches hstart hreaches
      exact hfinishes.fromLiterals hheap' hv

section Sample

/-- A list with a literal out of range inside. -/
def badList : Value := .qexpr [.integer 1, .fault .badNum]

/-- A program that takes the literal out of that list, still inside a list. -/
def badTail : Value := .sexpr [.symbol "tail", .symbol "bad"]

/-- The heap that binds the list. -/
def badHeap : Heap := Heap.initial.define 0 "bad" badList

/-- The line that binds the list. -/
def badLine : List Char := "def \x7bbad\x7d \x7b1 99999999999999999999\x7d".toList

/-- A line that moves the literal and then comes to a symbol that means nothing. -/
def nopeLine : List Char := "join (tail bad) nope".toList

/-- What that line demands. -/
def nopeDemand : Demand := .reduce badHeap 0 (.sexpr [.symbol "join", badTail, .symbol "nope"])

/-- A literal that is out of range stays inside of the lists that it is moved to, and an unbound
symbol beside it is a fault of its own. -/
theorem refused_literal_stays_inside :
    Session.Runs Heap.globalId Heap.initial [badLine] badHeap ∧ badHeap.Confines [badLine] ∧
      -- the literal is moved from one list to another
      nopeDemand.Reaches (.reduce badHeap 0 badTail) ∧
      Finishes badHeap 0 badTail (.qexpr [.fault .badNum]) badHeap ∧
      FromLiterals [badLine, nopeLine] [.fault .badNum] ∧
      -- the list that holds it is the argument of a call
      nopeDemand.Reaches (.call badHeap 0 (.builtin .tail) [badList]) ∧ badList.isFault = false ∧
      -- the symbol at the end is unbound
      nopeDemand.Reaches (.reduce badHeap 0 (.symbol "nope")) ∧
      Finishes badHeap 0 (.symbol "nope") (.fault .unboundSymbol) badHeap ∧
      Builtin.ofName? "nope" = none := by
  have hbad : Value.parse badLine =
      .ok (.sexpr [.symbol "def", .qexpr [.symbol "bad"], badList]) := by cbv
  have hnope : Value.parse nopeLine =
      .ok (.sexpr [.symbol "join", badTail, .symbol "nope"]) := by cbv
  have heval : eval 1 Heap.initial 0 (.sexpr [.symbol "def", .qexpr [.symbol "bad"], badList]) =
      some (.unit, badHeap) := by cbv
  have hline : Session.evalLine 1 Heap.initial Heap.globalId badLine =
      some (.ok .unit, badHeap) := by
    simp only [Session.evalLine, hbad, Heap.globalId, heval]
  have hruns : Session.Runs Heap.globalId Heap.initial [badLine] badHeap := .cons hline .nil
  have hjoin : Finishes badHeap 0 (.symbol "join") (.builtin .join) badHeap := ⟨0, by cbv⟩
  have htail : Finishes badHeap 0 (.symbol "tail") (.builtin .tail) badHeap := ⟨0, by cbv⟩
  have hmoved : Finishes badHeap 0 badTail (.qexpr [.fault .badNum]) badHeap := ⟨1, by cbv⟩
  have hunbound : Finishes badHeap 0 (.symbol "nope") (.fault .unboundSymbol) badHeap := ⟨0, by cbv⟩
  have hnone : FinishesEach badHeap 0 [] [] badHeap := ⟨0, rfl⟩
  have hargs : FinishesEach badHeap 0 [.symbol "bad"] [badList] badHeap := ⟨0, by cbv⟩
  have hreduce : nopeDemand.LeadsTo (.reduce badHeap 0 badTail) := .item hjoin rfl rfl hnone
  have hcall : (Demand.reduce badHeap 0 badTail).LeadsTo
      (.call badHeap 0 (.builtin .tail) [badList]) := .applied htail rfl rfl (by simp) hargs
  have hsymbol : nopeDemand.LeadsTo (.reduce badHeap 0 (.symbol "nope")) :=
    .item hjoin rfl rfl (hnone.concat hmoved rfl)
  have hreaches := Relation.ReflTransGen.single hreduce
  obtain ⟨hheap, -, hdemands⟩ := faults_are_confined hruns
  obtain ⟨-, hcalls, hsymbols, hresults⟩ := hdemands hnope
  exact ⟨hruns, hheap, hreaches, hmoved, (hresults hreaches hmoved).1, hreaches.tail hcall,
    hcalls (hreaches.tail hcall) rfl badList List.mem_cons_self, .single hsymbol, hunbound,
    (hsymbols (.single hsymbol) hunbound).2.2⟩

end Sample

end QuoteLisp
