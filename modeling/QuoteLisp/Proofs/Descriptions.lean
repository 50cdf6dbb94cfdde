import Mathlib
import QuoteLisp.Proofs.CallFrames

/-!
# What a scope shows of itself

A scope is described by how deep it lies and by the names it binds itself. `Heap.IsShown` says what
such a description is, in terms of the scopes around the scope and of what is bound in it. Names in
strictly increasing order are told by which they are, so nothing else can be seen in a description
(`Heap.describe_congr`).

A definition moves no scope and binds one name more, if the scope did not bind it before. So after any
definitions a scope binds the names that it bound before and those that were defined in it
(`Heap.binds_makeAll`), and it shows these, whatever the order of the definitions and however often one
was made anew.
-/

set_option autoImplicit false

namespace QuoteLisp

instance : Std.Irrefl NameBefore := ⟨NameBefore.irrefl⟩

instance : Std.Antisymm NameBefore :=
  ⟨fun s _ h h' => absurd (h.trans h') (NameBefore.irrefl s)⟩

/-- One definition that is made: at a place seen from a scope, of a name as a value. -/
structure Definition where
  place : Place
  scope : ScopeId
  name : String
  value : Value

namespace Definition

/-- The scope that a definition goes to. -/
def target (definition : Definition) (heap : Heap) : ScopeId :=
  definition.place.target heap definition.scope

/-- The heap after a definition. -/
def make (heap : Heap) (definition : Definition) : Heap :=
  match definition.place with
  | .global => (heap.defineGlobal definition.scope definition.name definition.value).2
  | .here => (heap.defineLocal definition.scope definition.name definition.value).2

/-- A definition is made in the scope that it goes to. -/
theorem make_eq (heap : Heap) (definition : Definition) :
    make heap definition =
      heap.define (definition.target heap) definition.name definition.value := by
  obtain ⟨place, scope, name, value⟩ := definition
  cases place <;> rfl

/-- The heap after several definitions, from the first to the last. -/
def makeAll (heap : Heap) (definitions : List Definition) : Heap :=
  definitions.foldl make heap

end Definition

namespace Bindings

/-- The names of some bindings are those that are bound. -/
theorem mem_names_iff {bindings : Bindings} {name : String} :
    name ∈ bindings.names ↔ ∃ v, bindings.get? name = some v := by
  obtain ⟨entries, hsorted⟩ := bindings
  show name ∈ entries.map Prod.fst ↔ ∃ v, findEntry name entries = some v
  clear hsorted
  induction entries with
  | nil => simp [findEntry]
  | cons entry entries ih =>
      rw [List.map_cons, List.mem_cons, ih, findEntry]
      split
      · next heq => simp [heq]
      · next hne => simp [hne]

end Bindings

namespace Heap

/-- A scope binds a name itself. -/
def Binds (heap : Heap) (id : ScopeId) (name : String) : Prop :=
  ∃ v, (heap.bindings id).get? name = some v

/-- The scopes around a scope, from the nearest one outward to the root. -/
inductive Enclosing (heap : Heap) : ScopeId → List ScopeId → Prop where
  | root {id : ScopeId} : heap.parent? id = none → Enclosing heap id []
  | step {id parent : ScopeId} {outer : List ScopeId} : heap.parent? id = some parent →
      Enclosing heap parent outer → Enclosing heap id (parent :: outer)

/-- What is shown of a scope: the number of the scopes around it, and the names that it binds itself,
each once and in strictly increasing order of their bytes. -/
structure IsShown (heap : Heap) (id : ScopeId) (outer : List ScopeId) (names : List String)
    (text : String) : Prop where
  enclosing : heap.Enclosing id outer
  text_eq : text = "<env depth " ++ outer.length.repr ++ ": " ++ String.intercalate " " names ++ ">"
  mem_iff : ∀ name, name ∈ names ↔ heap.Binds id name
  nodup : names.Nodup
  increasing : names.Pairwise fun s t => Text.bytes s < Text.bytes t

variable {heap heap' : Heap} {id id' : ScopeId} {name : String} {definition : Definition}
  {definitions : List Definition}

/-! ### Descriptions -/

/-- Every scope has a list of enclosing scopes, and its depth is their number. -/
theorem exists_enclosing (heap : Heap) (id : ScopeId) :
    ∃ outer, heap.Enclosing id outer ∧ heap.depth id = outer.length := by
  induction id using Nat.strongRecOn with
  | ind id ih =>
      cases hparent : heap.parent? id with
      | none =>
          have hdepth : heap.depth id = 0 := by
            rw [depth, chain_of_no_parent hparent, List.length_singleton]
          exact ⟨[], .root hparent, hdepth⟩
      | some parent =>
          obtain ⟨outer, houter, hdepth⟩ := ih parent (parent?_lt hparent)
          refine ⟨parent :: outer, .step hparent houter, ?_⟩
          rw [depth_of_parent hparent, hdepth, List.length_cons]

/-- A scope is described as it should be. -/
theorem exists_isShown_describe (heap : Heap) (id : ScopeId) :
    ∃ outer names, heap.IsShown id outer names (heap.describe id) := by
  obtain ⟨outer, houter, hdepth⟩ := heap.exists_enclosing id
  have hincreasing := (heap.bindings id).pairwise_names
  refine ⟨outer, _, houter, ?_, fun _ => Bindings.mem_names_iff, hincreasing.nodup, hincreasing⟩
  rw [describe, hdepth]

/-- A description shows the depth of a scope and which names it binds, and nothing else. -/
theorem describe_congr (hdepth : heap.depth id = heap'.depth id')
    (hbinds : ∀ name, heap.Binds id name ↔ heap'.Binds id' name) :
    heap.describe id = heap'.describe id' := by
  have hnames : (heap.bindings id).names = (heap'.bindings id').names := by
    refine (heap.bindings id).pairwise_names.eq_of_mem_iff (heap'.bindings id').pairwise_names ?_
    intro name
    rw [Bindings.mem_names_iff, Bindings.mem_names_iff]
    exact hbinds name
  rw [describe, describe, hdepth, hnames]

/-! ### Definitions -/

/-- After a definition a scope binds what it bound before and, if the definition went to it, the name
of that. The old value of the name plays no part. -/
theorem binds_make (hid : id < heap.size) :
    (definition.make heap).Binds id name ↔
      heap.Binds id name ∨ definition.target heap = id ∧ definition.name = name := by
  rw [Definition.make_eq]
  simp only [Binds, bindings_define]
  by_cases htarget : definition.target heap = id
  · subst htarget
    simp only [hid, and_self, if_true, Bindings.get?_insert, true_and]
    by_cases hname : name = definition.name
    · simp [hname]
    · simp [hname, Ne.symm hname]
  · simp [htarget, Ne.symm htarget]

/-- A definition moves no scope, so later ones go where they went before. -/
theorem target_make (other : Definition) :
    other.target (definition.make heap) = other.target heap := by
  obtain ⟨place, scope, name, value⟩ := other
  rw [Definition.make_eq]
  cases place with
  | global => exact root_define heap _ _ _ scope
  | here => rfl

/-- Definitions change the depth of no scope. -/
theorem depth_makeAll (heap : Heap) (definitions : List Definition) (id : ScopeId) :
    (Definition.makeAll heap definitions).depth id = heap.depth id := by
  induction definitions generalizing heap with
  | nil => rfl
  | cons definition definitions ih =>
      have hmake : (definition.make heap).depth id = heap.depth id := by
        rw [Definition.make_eq, depth, depth, chain_define]
      exact (ih _).trans hmake

/-- After definitions a scope binds what it bound before and what was defined in it. -/
theorem binds_makeAll (hid : id < heap.size) :
    (Definition.makeAll heap definitions).Binds id name ↔
      heap.Binds id name ∨
        ∃ definition ∈ definitions, definition.target heap = id ∧ definition.name = name := by
  induction definitions generalizing heap with
  | nil => simp [Definition.makeAll]
  | cons definition definitions ih =>
      have hsize : id < (definition.make heap).size := by
        rwa [Definition.make_eq, size_define]
      -- the others start from the heap that the first one leaves, and still go where they went
      have hrest := ih hsize
      simp only [binds_make hid, target_make] at hrest
      rw [List.exists_mem_cons_iff, ← or_assoc]
      exact hrest

/-- **A scope shows its depth and the names that it binds, and nothing else.** After any definitions,
in any scopes and of any names, a scope is described by the number of the scopes around it and by the
names that it binds itself, each once and in strictly increasing order of their bytes. These are the
names it bound before and the names of the definitions that went to it. Two scopes of the same depth
that bind the same names after whatever definitions are described alike. -/
theorem descriptions_show_bound_names (hid : id < heap.size) (definitions : List Definition) :
    (∃ outer names, (Definition.makeAll heap definitions).IsShown id outer names
        ((Definition.makeAll heap definitions).describe id)) ∧
      (∀ name, (Definition.makeAll heap definitions).Binds id name ↔
        heap.Binds id name ∨
          ∃ definition ∈ definitions, definition.target heap = id ∧ definition.name = name) ∧
      ∀ {heap' : Heap} {id' : ScopeId} (definitions' : List Definition),
        heap'.depth id' = heap.depth id →
        (∀ name, (Definition.makeAll heap' definitions').Binds id' name ↔
          (Definition.makeAll heap definitions).Binds id name) →
        (Definition.makeAll heap' definitions').describe id' =
          (Definition.makeAll heap definitions).describe id := by
  refine ⟨exists_isShown_describe _ id, fun _ => binds_makeAll hid, ?_⟩
  intro heap' id' definitions' hdepth hbinds
  apply describe_congr
  · rw [depth_makeAll, depth_makeAll, hdepth]
  · exact hbinds

/-- Three names are defined in an inner scope in two orders, once with one of them twice and once with
a definition in the root between them. The name that is not of ASCII letters comes last, and a name
comes after those that it goes on from. -/
theorem two_orders_of_definitions :
    let heap := (initial.spawn 0).2
    let one : List Definition := [⟨.here, 1, "é", .integer 1⟩, ⟨.here, 1, "zz", .integer 2⟩,
      ⟨.global, 1, "root", .integer 3⟩, ⟨.here, 1, "z", .integer 4⟩]
    let two : List Definition := [⟨.here, 1, "z", .integer 5⟩, ⟨.here, 1, "é", .unit⟩,
      ⟨.here, 1, "z", .integer 6⟩, ⟨.here, 1, "zz", .unit⟩]
    1 < heap.size ∧
      (∀ name, (Definition.makeAll heap two).Binds 1 name ↔
        (Definition.makeAll heap one).Binds 1 name) ∧
      (Definition.makeAll heap two).describe 1 = (Definition.makeAll heap one).describe 1 ∧
      (Definition.makeAll heap one).describe 1 = "<env depth 1: z zz é>" := by
  intro heap one two
  have hid : 1 < heap.size := by decide
  have hroot : heap.root 1 = 0 := by cbv
  obtain ⟨-, hone, hshow⟩ := descriptions_show_bound_names hid one
  obtain ⟨-, htwo, -⟩ := descriptions_show_bound_names hid two
  have hbinds : ∀ name, (Definition.makeAll heap two).Binds 1 name ↔
      (Definition.makeAll heap one).Binds 1 name := by
    intro name
    rw [hone, htwo]
    simp only [one, two, Definition.target, Place.target, hroot, List.exists_mem_cons_iff,
      List.not_mem_nil, false_and, exists_false, or_false, true_and]
    grind
  exact ⟨hid, hbinds, hshow two rfl hbinds, by cbv⟩

end Heap

end QuoteLisp
