import Mathlib
import QuoteLisp.Proofs.PartDiscipline

/-!
# Doubles stay finite

An operation on doubles checks its result, and a literal is checked where it is read. Only two doubles
come out unchecked: a lone operand, which is returned as it is, and the negation of a lone operand of
a difference. In both cases the operand is itself a double and no promoted integer
(`Operands.eq_of_ofValues_lone`), and negation keeps it finite. So where no infinity and no NaN is
written or bound, none is ever returned or bound, whatever is computed, moved or evaluated again.
-/

set_option autoImplicit false

namespace QuoteLisp

open Numeric (Double)

/-! ### Numbers that are computed -/

namespace Arith

/-- What every step of a fold ensures, a fold of at least one step ensures. -/
theorem of_foldlM_eq_ok {α : Type} {P : α → Prop} {combine : α → α → Except Fault α}
    (hcombine : ∀ {x y z}, combine x y = .ok z → P z) {xs : List α} (hne : xs ≠ []) {x r : α}
    (h : xs.foldlM combine x = .ok r) : P r := by
  induction xs generalizing x with
  | nil => exact absurd rfl hne
  | cons y ys ih =>
      obtain ⟨z, hz, hr⟩ := exists_of_bind_eq_ok h
      cases ys with
      | nil =>
          cases hr
          exact hcombine hz
      | cons y' ys => exact ih (by simp) hr

/-- What an operation on two doubles gives is finite, for it is checked. -/
theorem isFinite_of_onDouble {op : Arith} {x y z : Double} (h : op.onDouble x y = .ok z) :
    z.isFinite = true := by
  unfold onDouble at h
  split at h
  · cases h
  · dsimp only at h
    split at h
    · next hfinite =>
        cases h
        exact hfinite
    · cases h

/-- What is computed from doubles is finite, if a lone operand is. -/
theorem isFinite_of_foldDouble {op : Arith} {xs : List Double} {r : Double}
    (h : op.foldDouble xs = .ok r) (hlone : ∀ x, xs = [x] → x.isFinite = true) :
    r.isFinite = true := by
  match xs with
  | [] => cases h
  | [x] =>
      have hx := hlone x rfl
      cases h
      split
      · rw [Double.isFinite_neg, hx]
      · exact hx
  | x :: y :: rest => exact of_foldlM_eq_ok isFinite_of_onDouble (by simp) h

end Arith

namespace Operands

/-- There are as many operands as arguments. -/
theorem length_toDoubles_of_ofValues {vs : List Value} {operands : Operands}
    (h : ofValues vs = .ok operands) : operands.toDoubles.length = vs.length := by
  induction vs generalizing operands with
  | nil =>
      cases h
      rfl
  | cons v vs ih =>
      unfold ofValues at h
      split at h
      · next operands' hoperands =>
          have hlength := ih hoperands
          unfold cons? at h
          split at h
          · cases h
            simpa [toDoubles] using hlength
          · cases h
            simpa [toDoubles] using hlength
          · cases h
            simpa [toDoubles] using hlength
          · cases h
      · cases h

/-- A lone operand that is a double was one before. -/
theorem eq_of_ofValues_lone {vs : List Value} {x : Double} (h : ofValues vs = .ok (.doubles [x])) :
    vs = [.double x] := by
  obtain ⟨v, rfl⟩ := List.length_eq_one_iff.1 (length_toDoubles_of_ofValues h).symm
  cases v with
  | double y =>
      cases h
      rfl
  | _ => cases h

end Operands

/-! ### The discipline -/

/-- A double is to be finite; of other values nothing is asked. -/
def Value.IsFinite : Value → Prop
  | .double x => x.isFinite = true
  | .integer _ | .fault _ | .symbol _ | .builtin _ | .lambda _ _ _ | .sexpr _ | .qexpr _ => True

/-- A double that is computed from finite doubles is finite. -/
theorem isFinite_of_calculate {op : Arith} {args : List Value} {x : Double}
    (hargs : ∀ arg ∈ args, arg.IsFinite)
    (h : Builtin.calculate op args = .ok (.give (.double x))) : x.isFinite = true := by
  unfold Builtin.calculate at h
  split at h
  · cases h
  · obtain ⟨n, -, heq⟩ := exists_of_map_eq_ok h
    cases heq
  · next xs hxs =>
      obtain ⟨r, hr, heq⟩ := exists_of_map_eq_ok h
      cases heq
      refine Arith.isFinite_of_foldDouble hr fun y hy => ?_
      subst hy
      rw [Operands.eq_of_ofValues_lone hxs] at hargs
      exact hargs _ List.mem_cons_self

/-- Finite doubles: no part of a value is an infinity or a NaN. -/
def PartDiscipline.finite : PartDiscipline where
  ok := Value.IsFinite
  sexpr _ := trivial
  qexpr _ := trivial
  integer _ := trivial
  fault _ := trivial
  builtin _ := trivial
  lambda := by simp [Value.IsFinite]
  calculate := isFinite_of_calculate

/-- A double that was written is finite. -/
theorem Value.IsWritten.isFinite {v : Value} (h : v.IsWritten) : v.IsFinite := by
  cases v with
  | double x => exact h
  | _ => trivial

/-- The value of a tree has finite doubles only. -/
theorem Value.allFinite_of_adapt {tree : Node} {v : Value} (h : adapt tree = .ok v) :
    v.AllParts IsFinite := by
  have hnode : ofNode tree = .ok v := by
    unfold adapt at h
    split at h
    · next hnode =>
        cases h
        exact hnode
    · cases h
  intro u hu
  rcases isList_or_ofLeaf_of_ofNode hnode u hu with hlist | ⟨leaf, -, rfl⟩
  · exact (IsWritten.of_isList hlist).isFinite
  · exact (isWritten_ofLeaf leaf.1 leaf.2).isFinite

/-- A program has finite doubles only. -/
theorem Value.allFinite_of_parse {line : List Char} {program : Value}
    (h : parse line = .ok program) : program.AllParts IsFinite := fun u hu =>
  (plain_of_parse h u hu).isFinite

/-- **Doubles stay finite.** From a heap in which all doubles that are bound, at any depth, are finite,
the evaluation of a value whose doubles are finite gives a value whose doubles are finite and leaves
such a heap. The value of every tree has finite doubles only. So after any lines in the initial heap all
doubles that are bound are finite, and one more line gives a result whose doubles are finite and leaves
such a heap. -/
theorem doubles_stay_finite :
    (∀ {heap heap' : Heap} {scope : ScopeId} {v r : Value}, heap.AllParts Value.IsFinite →
      v.AllParts Value.IsFinite → Finishes heap scope v r heap' →
      r.AllParts Value.IsFinite ∧ heap'.AllParts Value.IsFinite) ∧
    (∀ {tree : Node} {v : Value}, Value.adapt tree = .ok v → v.AllParts Value.IsFinite) ∧
    ∀ {lines : List (List Char)} {heap : Heap},
      Session.Runs Heap.globalId Heap.initial lines heap →
      heap.AllParts Value.IsFinite ∧
      ∀ {bound : Nat} {line : List Char} {r : Value} {heap' : Heap},
        Session.evalLine bound heap Heap.globalId line = some (.ok r, heap') →
        r.AllParts Value.IsFinite ∧ heap'.AllParts Value.IsFinite := by
  refine ⟨?_, Value.allFinite_of_adapt, ?_⟩
  · intro heap heap' scope v r hheap hv hfinishes
    exact PartDiscipline.finite.finishes hheap hv hfinishes
  · intro lines heap hruns
    have hheap := PartDiscipline.finite.runs Value.allFinite_of_parse
      (Heap.allParts_initial Value.IsFinite) hruns
    refine ⟨hheap, ?_⟩
    intro bound line r heap' hline
    obtain ⟨hheap', hr⟩ := PartDiscipline.finite.evalLine Value.allFinite_of_parse hheap hline
    exact ⟨hr r rfl, hheap'⟩

section Sample

/-- A line that binds a list with the largest double. -/
def largestLine : List Char := "def \x7blargest\x7d \x7b1.7976931348623157e308\x7d".toList

/-- The tree of that line. -/
def largestTree : Node :=
  .group .root
    [.leaf .symbol "def".toList, .group .qexpr [.leaf .symbol "largest".toList],
      .group .qexpr [.leaf .double "1.7976931348623157e308".toList]]

/-- The list with the largest double. -/
def largestList : Value := .qexpr [.double ⟨0x7FEFFFFFFFFFFFFF⟩]

/-- The heap that binds the list. -/
def largestHeap : Heap := Heap.initial.define 0 "largest" largestList

/-- A program that takes the double out of the list and negates it. -/
def negateLargest : Value := .sexpr [.symbol "-", .sexpr [.symbol "eval", .symbol "largest"]]

/-- The largest double stays finite when it is bound in a list, taken out of it and negated. -/
theorem largest_double_stays_finite :
    let program : Value := .sexpr [.symbol "def", .qexpr [.symbol "largest"], largestList]
    let negated : Value := .double ⟨0xFFEFFFFFFFFFFFFF⟩
    Value.adapt largestTree = .ok program ∧ program.AllParts Value.IsFinite ∧
      Session.Runs Heap.globalId Heap.initial [largestLine] largestHeap ∧
      largestHeap.AllParts Value.IsFinite ∧ negateLargest.AllParts Value.IsFinite ∧
      Finishes largestHeap 0 negateLargest negated largestHeap ∧
      negated.AllParts Value.IsFinite := by
  intro program negated
  have hread : Node.read largestLine = .ok largestTree := by cbv
  have hliteral : Value.ofDouble "1.7976931348623157e308" = .double ⟨0x7FEFFFFFFFFFFFFF⟩ := by
    have hnumber : Numeric.readDouble? "1.7976931348623157e308".toList =
        some ⟨0x7FEFFFFFFFFFFFFF⟩ := by decide +kernel
    rw [Value.ofDouble, hnumber]
    rfl
  have hadapt : Value.adapt largestTree = .ok program := by
    simp [Value.adapt, largestTree, Node.group, Node.leaf, Value.ofNode, Value.ofNodes,
      Node.Kind.ofTag?_tag, Value.ofLeaf, hliteral, Except.map, program, largestList]
  have heval : eval 1 Heap.initial 0 program = some (.unit, largestHeap) := by cbv
  have hline : Session.evalLine 1 Heap.initial Heap.globalId largestLine =
      some (.ok .unit, largestHeap) := by
    simp only [Session.evalLine, Value.parse, hread, hadapt, Heap.globalId, heval]
  have hruns : Session.Runs Heap.globalId Heap.initial [largestLine] largestHeap :=
    .cons hline .nil
  have hsource : negateLargest.AllParts Value.IsFinite := by
    intro u hu
    simp only [negateLargest, Value.parts, Value.partsAll, List.append_nil, List.cons_append,
      List.nil_append, List.mem_cons, List.not_mem_nil, or_false] at hu
    rcases hu with rfl | rfl | rfl | rfl | rfl <;> trivial
  have hnegated : Finishes largestHeap 0 negateLargest negated largestHeap := ⟨3, by cbv⟩
  obtain ⟨hfinishes, htrees, hlines⟩ := doubles_stay_finite
  have hheap := (hlines hruns).1
  exact ⟨hadapt, htrees hadapt, hruns, hheap, hsource, hnegated,
    (hfinishes hheap hsource hnegated).1⟩

end Sample

end QuoteLisp
