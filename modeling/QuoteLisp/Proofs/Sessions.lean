import QuoteLisp.Proofs.Discipline
import QuoteLisp.Proofs.Parts
import QuoteLisp.Session

/-!
# Lines one after the other

A session evaluates lines in one scope, each in the heap that the lines before it left. `Session.Runs`
is such a session, with no bound on how deep a line may nest: a line that cannot be read leaves the
heap alone, and any other line is the evaluation of the program it spells (`evalLine_cases`), so it
finishes as that program does (`finishesLine_iff`).

What a line spells is made of lists and of the values of its words (`isList_or_ofLeaf_of_ofNode`). So
it is plain (`plain_of_parse`): it holds no functions, only finite doubles, and no fault but that of a
number out of range. A discipline that lets the programs of a session be reduced
is kept by the session (`Discipline.runs_of_programs`), and so one that lets plain values be reduced is
kept by every session (`Discipline.runs`).
-/

set_option autoImplicit false

namespace QuoteLisp

namespace Node

mutual

/-- The words of the leaves of a tree, with their classes. -/
def leaves : Node → List (Lexeme × String)
  | ⟨tag, contents, children⟩ =>
      match Kind.ofTag? tag with
      | some (.leaf lexeme) => [(lexeme, contents)]
      | _ => leavesAll children

/-- The words of the leaves of several trees. -/
def leavesAll : List Node → List (Lexeme × String)
  | [] => []
  | node :: rest => leaves node ++ leavesAll rest

end

end Node

namespace Value

/-- The values that can be written down. -/
def IsWritten : Value → Prop
  | .integer _ | .symbol _ | .sexpr _ | .qexpr _ => True
  | .double x => x.isFinite = true
  | .fault cause => cause = .badNum
  | .builtin _ | .lambda _ _ _ => False

/-- A value all parts of which can be written down. -/
def Plain (v : Value) : Prop :=
  ∀ u ∈ v.parts, u.IsWritten

/-- Whether a value is a list. -/
def isList : Value → Bool
  | .sexpr _ | .qexpr _ => true
  | _ => false

/-- A list can be written down. -/
theorem IsWritten.of_isList {v : Value} (h : v.isList = true) : v.IsWritten := by
  cases v with
  | sexpr items => trivial
  | qexpr items => trivial
  | _ => cases h

/-- What a leaf means can be written down. -/
theorem isWritten_ofLeaf (lexeme : Lexeme) (text : String) : (ofLeaf lexeme text).IsWritten := by
  cases lexeme with
  | long =>
      show (ofLong text).IsWritten
      unfold ofLong
      split
      · trivial
      · rfl
  | double =>
      show (ofDouble text).IsWritten
      unfold ofDouble
      split
      · split
        · next hfinite => exact hfinite
        · rfl
      · rfl
  | symbol => trivial

/-- What a leaf means has no other parts. -/
theorem parts_ofLeaf (lexeme : Lexeme) (text : String) :
    (ofLeaf lexeme text).parts = [ofLeaf lexeme text] := by
  cases lexeme with
  | long =>
      show (ofLong text).parts = [ofLong text]
      unfold ofLong
      split <;> rfl
  | double =>
      show (ofDouble text).parts = [ofDouble text]
      unfold ofDouble
      split
      · split <;> rfl
      · rfl
  | symbol => rfl

mutual

/-- Every part of the value of a tree is a list or the value of a leaf. -/
theorem isList_or_ofLeaf_of_ofNode : ∀ {node : Node} {v : Value}, ofNode node = .ok v →
    ∀ u ∈ v.parts, u.isList = true ∨ ∃ leaf ∈ node.leaves, u = ofLeaf leaf.1 leaf.2
  | ⟨tag, contents, children⟩, v, h => by
      intro u hu
      -- the leaves of a group are those of its children
      have hgroup : ∀ {vs : List Value}, v.parts = v :: partsAll vs → v.isList = true →
          ofNodes children = .ok vs →
          u.isList = true ∨ ∃ leaf ∈ Node.leavesAll children, u = ofLeaf leaf.1 leaf.2 := by
        intro vs hparts hlist hvs
        rw [hparts] at hu
        rcases List.mem_cons.1 hu with rfl | hu
        · exact .inl hlist
        · exact isList_or_ofLeaf_of_ofNodes hvs u hu
      unfold ofNode at h
      unfold Node.leaves
      cases hkind : Node.Kind.ofTag? tag with
      | none =>
          rw [hkind] at h
          cases h
      | some kind =>
          rw [hkind] at h
          cases kind with
          | leaf lexeme =>
              cases h
              rw [parts_ofLeaf, List.mem_singleton] at hu
              exact .inr ⟨(lexeme, contents), List.mem_singleton_self _, hu⟩
          | root | sexpr | qexpr =>
              obtain ⟨vs, hvs, rfl⟩ := exists_of_map_eq_ok h
              exact hgroup rfl rfl hvs

/-- The parts of what nodes mean are lists and what the leaves mean. -/
theorem isList_or_ofLeaf_of_ofNodes : ∀ {nodes : List Node} {vs : List Value},
    ofNodes nodes = .ok vs →
    ∀ u ∈ partsAll vs, u.isList = true ∨ ∃ leaf ∈ Node.leavesAll nodes, u = ofLeaf leaf.1 leaf.2
  | [], vs, h => by
      cases h
      simp [partsAll]
  | node :: rest, vs, h => by
      unfold ofNodes at h
      split at h
      · cases h
      · next v hv =>
          split at h
          · cases h
          · next vs' hvs =>
              cases h
              intro u hu
              rcases List.mem_append.1 hu with hu | hu
              · refine (isList_or_ofLeaf_of_ofNode hv u hu).imp_right ?_
                rintro ⟨leaf, hleaf, heq⟩
                exact ⟨leaf, List.mem_append_left _ hleaf, heq⟩
              · refine (isList_or_ofLeaf_of_ofNodes hvs u hu).imp_right ?_
                rintro ⟨leaf, hleaf, heq⟩
                exact ⟨leaf, List.mem_append_right _ hleaf, heq⟩

end

/-- What a text spells is the value of the tree that is read. -/
theorem exists_tree_of_parse {text : List Char} {program : Value} (h : parse text = .ok program) :
    ∃ tree, Node.read text = .ok tree ∧ ofNode tree = .ok program := by
  unfold parse at h
  split at h
  · next tree htree =>
      unfold adapt at h
      split at h
      · next hnode =>
          cases h
          exact ⟨tree, htree, hnode⟩
      · cases h
  · cases h

/-- What a text spells is plain. -/
theorem plain_of_parse {text : List Char} {program : Value} (h : parse text = .ok program) :
    program.Plain := by
  obtain ⟨tree, -, hnode⟩ := exists_tree_of_parse h
  intro u hu
  rcases isList_or_ofLeaf_of_ofNode hnode u hu with hlist | ⟨leaf, -, rfl⟩
  · exact .of_isList hlist
  · exact isWritten_ofLeaf leaf.1 leaf.2

/-- A plain value closes over nothing. -/
theorem Plain.closures_eq_nil {v : Value} (h : v.Plain) : v.closures = [] := by
  rw [List.eq_nil_iff_forall_not_mem]
  intro c hc
  obtain ⟨formals, body, hmem⟩ := mem_closures_iff.1 hc
  exact h _ hmem

end Value

namespace Session

/-- A line is refused and nothing happens, or it spells a program that is evaluated. -/
theorem evalLine_cases {bound : Nat} {heap heap' : Heap} {scope : ScopeId} {line : List Char}
    {result : Except InputError Value}
    (h : evalLine bound heap scope line = some (result, heap')) :
    (∃ cause, result = .error cause ∧ heap' = heap ∧ Value.parse line = .error cause) ∨
      ∃ program v, Value.parse line = .ok program ∧ result = .ok v ∧
        Finishes heap scope program v heap' := by
  unfold evalLine at h
  split at h
  · next cause hcause =>
      cases h
      exact .inl ⟨cause, rfl, rfl, hcause⟩
  · next program hprogram =>
      split at h
      · cases h
      · next v heap₁ heval =>
          cases h
          exact .inr ⟨program, v, hprogram, rfl, bound, heval⟩

/-- A line comes to the same within every larger bound. -/
theorem evalLine_mono {bound bound' : Nat} {heap heap' : Heap} {scope : ScopeId} {line : List Char}
    {result : Except InputError Value} (hle : bound ≤ bound')
    (h : evalLine bound heap scope line = some (result, heap')) :
    evalLine bound' heap scope line = some (result, heap') := by
  unfold evalLine at h ⊢
  split at h
  · exact h
  · next program hprogram =>
      split at h
      · cases h
      · next v heap₁ heval =>
          rw [eval_mono hle _ _ _ _ heval]
          exact h

/-- The evaluation of a line in a scope finishes with a result and a final heap: some bound on nested
reductions is large enough. -/
def FinishesLine (heap : Heap) (scope : ScopeId) (line : List Char)
    (result : Except InputError Value) (heap' : Heap) : Prop :=
  ∃ bound, evalLine bound heap scope line = some (result, heap')

/-- A line that spells a program finishes as the program does. -/
theorem finishesLine_iff {heap heap' : Heap} {scope : ScopeId} {line : List Char} {program : Value}
    {result : Except InputError Value} (hparse : Value.parse line = .ok program) :
    FinishesLine heap scope line result heap' ↔
      ∃ r, result = .ok r ∧ Finishes heap scope program r heap' := by
  constructor
  · rintro ⟨bound, h⟩
    rcases evalLine_cases h with ⟨cause, -, -, hcause⟩ | ⟨program', v, hprogram, rfl, hfinishes⟩
    · rw [hparse] at hcause
      cases hcause
    · rw [hparse] at hprogram
      cases hprogram
      exact ⟨v, rfl, hfinishes⟩
  · rintro ⟨r, rfl, bound, heval⟩
    refine ⟨bound, ?_⟩
    simp only [evalLine, hparse, heval]

/-- Lines are evaluated in a scope one after the other, each with a bound that is large enough. -/
inductive Runs (scope : ScopeId) : Heap → List (List Char) → Heap → Prop where
  | nil {heap : Heap} : Runs scope heap [] heap
  | cons {heap heap₁ heap₂ : Heap} {bound : Nat} {line : List Char} {lines : List (List Char)}
      {result : Except InputError Value} :
      evalLine bound heap scope line = some (result, heap₁) → Runs scope heap₁ lines heap₂ →
      Runs scope heap (line :: lines) heap₂

end Session

namespace Discipline

variable (D : Discipline) {heap heap' : Heap} {scope : ScopeId}

/-- A line keeps a discipline under which the program it spells may be reduced. -/
theorem evalLine {bound : Nat} {line : List Char} {result : Except InputError Value}
    (hprogram : ∀ program, Value.parse line = .ok program → D.sourceOk heap program)
    (hheap : D.heapOk heap) (hscope : D.scopeOk heap scope)
    (h : Session.evalLine bound heap scope line = some (result, heap')) :
    D.heapOk heap' ∧ D.change scope heap heap' := by
  rcases Session.evalLine_cases h with ⟨cause, rfl, rfl, -⟩ | ⟨program, v, hparse, rfl, hfinishes⟩
  · exact ⟨hheap, D.change_refl scope _⟩
  · have hkeeps := D.reduces hfinishes.reduces hheap hscope (hprogram program hparse)
    exact ⟨hkeeps.heapOk, hkeeps.change⟩

/-- A session keeps a discipline under which the programs that its lines spell may be reduced. -/
theorem runs_of_programs {lines : List (List Char)}
    (hprograms : ∀ line ∈ lines, ∀ program, Value.parse line = .ok program →
      ∀ heap, D.sourceOk heap program)
    (hheap : D.heapOk heap) (hscope : D.scopeOk heap scope)
    (h : Session.Runs scope heap lines heap') : D.heapOk heap' ∧ D.change scope heap heap' := by
  induction h with
  | nil => exact ⟨hheap, D.change_refl scope _⟩
  | cons hline _ ih =>
      obtain ⟨hheap₁, hchange⟩ := D.evalLine
        (fun program hparse => hprograms _ List.mem_cons_self program hparse _) hheap hscope hline
      obtain ⟨hheap₂, hchange₂⟩ := ih
        (fun line hmem => hprograms line (List.mem_cons_of_mem _ hmem)) hheap₁
        (D.scope_mono hchange hscope)
      exact ⟨hheap₂, D.change_trans hchange hchange₂⟩

/-- A session keeps a discipline under which plain values may be reduced. -/
theorem runs (hplain : ∀ {heap : Heap} {v : Value}, v.Plain → D.sourceOk heap v)
    {lines : List (List Char)} (hheap : D.heapOk heap) (hscope : D.scopeOk heap scope)
    (h : Session.Runs scope heap lines heap') : D.heapOk heap' ∧ D.change scope heap heap' :=
  D.runs_of_programs (fun _ _ _ hparse _ => hplain (Value.plain_of_parse hparse)) hheap hscope h

end Discipline

end QuoteLisp
