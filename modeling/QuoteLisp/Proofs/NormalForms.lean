import Mathlib
import QuoteLisp.Proofs.Sessions

/-!
# Results are normal

A symbol and a program that is not empty are there to be reduced; every other value is normal. This
file shows that nothing else ever comes out. Lists, quotation and the rest of a call's arguments move
symbols and programs about, but only inside lists, and a list is normal whatever it holds. So once
all bindings are normal, every result is, and all bindings stay so, those of the scopes of calls
included. A normal value reduces to itself at once, so that to evaluate a result again changes
nothing.
-/

set_option autoImplicit false

namespace QuoteLisp

/-- A heap in which names are bound to normal values only. -/
def Heap.AllNormal (heap : Heap) : Prop :=
  ∀ d name v, (heap.bindings d).get? name = some v → v.Normal

/-- The first heap binds normal values only, for it binds none. -/
theorem Heap.allNormal_initial : Heap.initial.AllNormal := by
  intro d name v hget
  rw [Heap.bindings_initial, Bindings.get?_empty] at hget
  cases hget

/-- A computed number is normal. -/
theorem normal_of_calculate {op : Arith} {args : List Value} {v : Value}
    (h : Builtin.calculate op args = .ok (.give v)) : v.Normal := by
  rcases Builtin.calculate_eq_ok h with ⟨n, heq⟩ | ⟨x, heq⟩
  · cases heq
    trivial
  · cases heq
    trivial

/-- Normal values: anything may be reduced, and what comes out or is bound is normal. -/
def Discipline.normal : Discipline where
  heapOk := Heap.AllNormal
  scopeOk _ _ := True
  sourceOk _ _ := True
  resultOk _ v := v.Normal
  argOk _ := True
  change _ _ _ := True
  change_refl _ _ := trivial
  change_trans _ _ := trivial
  scope_mono _ _ := trivial
  source_mono _ _ := trivial
  result_mono _ hv := hv
  result_of_normal _ hv := hv
  arg_of_not_fault _ := trivial
  source_of_result _ _ := trivial
  source_sexpr := by simp
  result_qexpr := by simp [Value.Normal]
  result_lambda := by simp [Value.Normal]
  result_integer _ _ := trivial
  result_fault _ _ _ := trivial
  result_builtin _ _ := trivial
  result_calculate _ hcalc := normal_of_calculate hcalc
  result_binding hheap _ _ hget := hheap _ _ _ hget
  define := by
    intro heap scope d v name hheap _ _ hv _
    refine ⟨?_, trivial⟩
    intro d' name' w hget
    rcases Heap.get?_define heap d name v d' name' hget with ⟨rfl, -⟩ | hget
    · exact hv
    · exact hheap d' name' w hget
  spawn := by
    intro heap closure hheap _
    refine ⟨?_, trivial⟩
    intro d name v hget
    rw [Heap.bindings_spawn] at hget
    exact hheap d name v hget
  change_of_call _ _ := trivial

/-- The result of an evaluation is normal, and so are all bindings afterwards. -/
theorem Finishes.normal {heap heap' : Heap} {scope : ScopeId} {v r : Value}
    (h : Finishes heap scope v r heap') (hheap : heap.AllNormal) :
    r.Normal ∧ heap'.AllNormal := by
  have hkeeps := Discipline.normal.reduces h.reduces hheap trivial trivial
  exact ⟨hkeeps.resultOk, hkeeps.heapOk⟩

/-- **Results are normal forms.** The initial heap binds nothing but normal values. From a heap that
binds nothing but normal values, the evaluation of any value in any scope that finishes gives a normal
value, leaves such a heap, and to evaluate the result there gives it back and changes nothing. So it
is for every line of a session that starts in the initial heap. -/
theorem results_are_normal_forms :
    Heap.initial.AllNormal ∧
    (∀ {heap heap' : Heap} {scope : ScopeId} {v r : Value}, heap.AllNormal →
      Finishes heap scope v r heap' →
      r.Normal ∧ heap'.AllNormal ∧ ∀ bound, eval bound heap' scope r = some (r, heap')) ∧
    (∀ {lines : List (List Char)} {heap : Heap},
      Session.Runs Heap.globalId Heap.initial lines heap →
      heap.AllNormal ∧
      ∀ {bound : Nat} {line : List Char} {r : Value} {heap' : Heap},
        Session.evalLine bound heap Heap.globalId line = some (.ok r, heap') →
        r.Normal ∧ heap'.AllNormal ∧
          ∀ bound', eval bound' heap' Heap.globalId r = some (r, heap')) := by
  refine ⟨Heap.allNormal_initial, ?_, ?_⟩
  · intro heap heap' scope v r hheap hfinishes
    obtain ⟨hr, hheap'⟩ := hfinishes.normal hheap
    exact ⟨hr, hheap', fun bound => eval_normal bound hr⟩
  · intro lines heap hruns
    obtain ⟨hheap, -⟩ :=
      Discipline.normal.runs (fun _ => trivial) Heap.allNormal_initial trivial hruns
    refine ⟨hheap, ?_⟩
    intro bound line r heap' hline
    rcases Session.evalLine_cases hline with ⟨cause, hcause, -⟩ | ⟨program, w, -, hw, hfinishes⟩
    · cases hcause
    · cases hw
      obtain ⟨hr, hheap'⟩ := hfinishes.normal hheap
      exact ⟨hr, hheap', fun bound' => eval_normal bound' hr⟩

/-- A call whose remaining arguments are symbols and programs: they end up in a list, which is bound
and returned. -/
theorem rest_of_call_is_normal :
    let f : Value := .lambda ⟨[], some "xs"⟩ [.symbol "xs"] 0
    let heap := Heap.initial.define 0 "f" f
    let v : Value := .sexpr [.symbol "f", .qexpr [.symbol "a"], .sexpr [.symbol "list", .symbol "b"]]
    let r : Value := .qexpr [.qexpr [.symbol "a"], .qexpr [.symbol "b"]]
    heap.AllNormal ∧ ∃ heap', Finishes heap 0 v r heap' ∧
      r.Normal ∧ heap'.AllNormal ∧ ∀ bound, eval bound heap' 0 r = some (r, heap') := by
  intro f heap v r
  have hheap : heap.AllNormal := by
    intro d name w hget
    rcases Heap.get?_define Heap.initial 0 "f" f d name hget with ⟨rfl, -⟩ | hget
    · trivial
    · exact Heap.allNormal_initial d name w hget
  have hfinishes : Finishes heap 0 v r ((heap.spawn 0).2.define 1 "xs" r) := ⟨2, by cbv⟩
  exact ⟨hheap, _, hfinishes, results_are_normal_forms.2.1 hheap hfinishes⟩

end QuoteLisp
