import QuoteLisp.Proofs.Scopes

/-!
# What definitions change

Seen from a scope, a name means what the nearest scope binds it to, going outward; if no scope on the
way to the root binds it, it means the builtin function of its name, and otherwise nothing.
`Heap.Means` says so of the scopes that a scope lies within, with no word on how they are looked
through, and `Heap.lookup_eq_iff_means` that looking up finds exactly this.

A definition moves no scope and changes one name in one scope. So it is seen from the scopes that lie
within that one and on whose way to it no other scope binds the name (`Heap.Exposes`), and nothing
else is seen differently from anywhere (`Heap.defines_define`).
-/

set_option autoImplicit false

namespace QuoteLisp

namespace Builtin

/-- A builtin function is found by its name. -/
theorem ofName?_eq_some_iff {name : String} {b : Builtin} :
    ofName? name = some b ↔ b.name = name := by
  constructor
  · intro h
    have hname := List.find?_some h
    exact beq_iff_eq.1 hname
  · rintro rfl
    exact ofName?_name b

/-- No function is found by a name that no builtin function has. -/
theorem ofName?_eq_none_iff {name : String} :
    ofName? name = none ↔ ∀ b : Builtin, b.name ≠ name := by
  rw [Option.eq_none_iff_forall_ne_some]
  exact forall_congr' fun b => not_congr ofName?_eq_some_iff

end Builtin

namespace Heap

/-- A scope lies within itself and within all scopes that the one around it lies within. -/
inductive Within (heap : Heap) : ScopeId → ScopeId → Prop where
  | refl (d : ScopeId) : Within heap d d
  | step {d parent s : ScopeId} : heap.parent? d = some parent → Within heap parent s →
      Within heap d s

/-- A name is exposed from a scope to one that it lies within: no scope on the way binds it. -/
structure Exposes (heap : Heap) (d s : ScopeId) (name : String) : Prop where
  within : heap.Within d s
  unbound : ∀ t, heap.Within d t → heap.Within t s → t ≠ s → (heap.bindings t).get? name = none

/-- No scope that a scope lies within binds a name. -/
def Unbound (heap : Heap) (d : ScopeId) (name : String) : Prop :=
  ∀ s, heap.Within d s → (heap.bindings s).get? name = none

/-- What a name means in a scope: what the nearest scope that binds it binds it to, else the builtin
function of that name, else nothing. -/
inductive Means (heap : Heap) (d : ScopeId) (name : String) : Except Fault Value → Prop where
  | bound {s : ScopeId} {v : Value} : heap.Exposes d s name →
      (heap.bindings s).get? name = some v → Means heap d name (.ok v)
  | builtin {b : Builtin} : heap.Unbound d name → b.name = name →
      Means heap d name (.ok (.builtin b))
  | nothing : heap.Unbound d name → (∀ b : Builtin, b.name ≠ name) →
      Means heap d name (.error .unboundSymbol)

/-- What it is to define a name in a scope: the former value is given back, the new one is seen from
where the name is exposed to the scope, and everything else is seen as before. -/
structure Defines (heap : Heap) (s : ScopeId) (name : String) (v : Value) (former : Option Value)
    (heap' : Heap) : Prop where
  former_eq : former = (heap.bindings s).get? name
  seen : ∀ d, heap.Exposes d s name → heap'.lookup d name = .ok v
  unseen : ∀ d name', ¬ (name' = name ∧ heap.Exposes d s name) →
    heap'.lookup d name' = heap.lookup d name'

variable {heap heap' : Heap} {d s t parent : ScopeId} {name name' : String} {v : Value}
  {r r' : Except Fault Value}

/-! ### The way outward -/

/-- A scope lies within itself and what the scope around it lies within, and nothing else. -/
theorem within_iff_of_parent (hparent : heap.parent? d = some parent) :
    heap.Within d s ↔ s = d ∨ heap.Within parent s := by
  constructor
  · intro h
    cases h with
    | refl => exact .inl rfl
    | step hparent' h =>
        rw [hparent] at hparent'
        cases hparent'
        exact .inr h
  · rintro (rfl | h)
    · exact .refl s
    · exact .step hparent h

/-- A scope with nothing around it lies within itself only. -/
theorem within_iff_of_no_parent (hparent : heap.parent? d = none) : heap.Within d s ↔ s = d := by
  constructor
  · intro h
    cases h with
    | refl => rfl
    | step hparent' =>
        rw [hparent] at hparent'
        cases hparent'
  · rintro rfl
    exact .refl s

/-- What a scope lies within lies within further scopes, and so does the scope. -/
theorem Within.trans (h : heap.Within d s) (h' : heap.Within s t) : heap.Within d t := by
  induction h with
  | refl d => exact h'
  | step hparent _ ih => exact .step hparent (ih h')

/-- The scopes that a scope lies within have no larger numbers. -/
theorem Within.le (h : heap.Within d s) : s ≤ d := by
  induction h with
  | refl d => exact Nat.le_refl d
  | step hparent _ ih => exact Nat.le_trans ih (Nat.le_of_lt (parent?_lt hparent))

/-- Two scopes that lie within each other are one. -/
theorem Within.antisymm (h : heap.Within s t) (h' : heap.Within t s) : s = t :=
  Nat.le_antisymm h'.le h.le

/-- Of two scopes that a scope lies within, one lies within the other. -/
theorem Within.total (h : heap.Within d s) (h' : heap.Within d t) :
    heap.Within s t ∨ heap.Within t s := by
  induction h with
  | refl d => exact .inl h'
  | step hparent hrest ih =>
      rcases (within_iff_of_parent hparent).1 h' with rfl | hrest'
      · exact .inr (.step hparent hrest)
      · exact ih hrest'

/-- A scope lies within the scopes of its chain. -/
theorem within_iff_mem_chain : heap.Within d s ↔ s ∈ heap.chain d := by
  constructor
  · intro h
    induction h with
    | refl d =>
        rw [chain]
        split <;> simp
    | step hparent _ ih =>
        rw [chain_of_parent hparent]
        exact List.mem_cons_of_mem _ ih
  · exact mem_of_mem_chain (fun _ _ hd hparent => hd.trans (.step hparent (.refl _))) (.refl d)

/-- A scope lies within its root. -/
theorem within_root (heap : Heap) (d : ScopeId) : heap.Within d (heap.root d) :=
  within_iff_mem_chain.2 (root_mem_chain heap d)

/-- Nothing is around a root. -/
theorem parent?_root (heap : Heap) (d : ScopeId) : heap.parent? (heap.root d) = none := by
  induction d using Nat.strongRecOn with
  | ind d ih =>
      cases hparent : heap.parent? d with
      | none => rwa [root_of_no_parent hparent]
      | some parent =>
          rw [root_of_parent hparent]
          exact ih parent (parent?_lt hparent)

/-- What lies within what is told by the enclosing scopes alone. -/
theorem within_congr (h : ∀ d, heap'.parent? d = heap.parent? d) :
    heap'.Within d s ↔ heap.Within d s := by
  rw [within_iff_mem_chain, within_iff_mem_chain, chain_congr fun d _ => h d]

/-- A name is exposed from a scope to that scope itself. -/
theorem Exposes.refl (heap : Heap) (d : ScopeId) (name : String) : heap.Exposes d d name where
  within := .refl d
  unbound := fun _ hd hd' hne => absurd (hd'.antisymm hd) hne

/-- A name that is exposed to a scope is exposed to the scopes on the way. -/
theorem Exposes.of_within (h : heap.Exposes d t name) (hs : heap.Within d s)
    (hst : heap.Within s t) : heap.Exposes d s name where
  within := hs
  unbound := by
    intro u hu hus hne
    refine h.unbound u hu (hus.trans hst) ?_
    rintro rfl
    exact hne (hus.antisymm hst)

/-- A name is exposed from a scope that does not bind it to where it is exposed from the scope
around. -/
theorem Exposes.step (hparent : heap.parent? d = some parent)
    (hget : (heap.bindings d).get? name = none) (h : heap.Exposes parent s name) :
    heap.Exposes d s name where
  within := .step hparent h.within
  unbound := by
    intro t ht hts hne
    rcases (within_iff_of_parent hparent).1 ht with rfl | ht
    · exact hget
    · exact h.unbound t ht hts hne

/-- A name that is bound neither in a scope nor around it is bound nowhere on the way outward. -/
theorem Unbound.step (hparent : heap.parent? d = some parent)
    (hget : (heap.bindings d).get? name = none) (h : heap.Unbound parent name) :
    heap.Unbound d name := by
  intro s hs
  rcases (within_iff_of_parent hparent).1 hs with rfl | hs
  · exact hget
  · exact h s hs

/-! ### Looking up -/

/-- A name that a scope binds is looked up there. -/
theorem lookup_of_get? (h : (heap.bindings d).get? name = some v) : heap.lookup d name = .ok v := by
  unfold lookup
  cases hparent : heap.parent? d with
  | none => simp [chain_of_no_parent hparent, h]
  | some parent => simp [chain_of_parent hparent, h]

/-- A name that a scope does not bind is looked up around it. -/
theorem lookup_of_parent (hparent : heap.parent? d = some parent)
    (h : (heap.bindings d).get? name = none) : heap.lookup d name = heap.lookup parent name := by
  simp [lookup, chain_of_parent hparent, h]

/-- A name that a scope does not bind means what it means around the scope. -/
theorem Means.step (hparent : heap.parent? d = some parent)
    (hget : (heap.bindings d).get? name = none) (h : heap.Means parent name r) :
    heap.Means d name r := by
  cases h with
  | bound hexposed hbound => exact .bound (hexposed.step hparent hget) hbound
  | builtin hunbound hname => exact .builtin (hunbound.step hparent hget) hname
  | nothing hunbound hname => exact .nothing (hunbound.step hparent hget) hname

/-- At a root that does not bind it, a name means a builtin function or nothing. -/
theorem means_lookup_root (hparent : heap.parent? d = none)
    (hget : (heap.bindings d).get? name = none) : heap.Means d name (heap.lookup d name) := by
  have hunbound : heap.Unbound d name := by
    intro s hs
    rw [(within_iff_of_no_parent hparent).1 hs]
    exact hget
  cases hname : Builtin.ofName? name with
  | some b =>
      have hlookup : heap.lookup d name = .ok (.builtin b) := by
        simp [lookup, chain_of_no_parent hparent, hget, hname]
      rw [hlookup]
      exact .builtin hunbound (Builtin.ofName?_eq_some_iff.1 hname)
  | none =>
      have hlookup : heap.lookup d name = .error .unboundSymbol := by
        simp [lookup, chain_of_no_parent hparent, hget, hname]
      rw [hlookup]
      exact .nothing hunbound (Builtin.ofName?_eq_none_iff.1 hname)

/-- What is looked up is what the name means, by the way outward from the scope. -/
theorem means_lookup (heap : Heap) (d : ScopeId) (name : String) :
    heap.Means d name (heap.lookup d name) := by
  -- on the number of the scope, since the scope around another has a smaller one
  induction d using Nat.strongRecOn with
  | ind d ih =>
      cases hget : (heap.bindings d).get? name with
      | some v =>
          rw [lookup_of_get? hget]
          exact .bound (.refl heap d name) hget
      | none =>
          cases hparent : heap.parent? d with
          | none => exact means_lookup_root hparent hget
          | some parent =>
              rw [lookup_of_parent hparent hget]
              exact (ih parent (parent?_lt hparent)).step hparent hget

/-- There is one nearest scope at most. -/
theorem Exposes.unique {v' : Value} (h : heap.Exposes d s name) (h' : heap.Exposes d t name)
    (hget : (heap.bindings s).get? name = some v) (hget' : (heap.bindings t).get? name = some v') :
    s = t := by
  refine Decidable.byContradiction fun hne => ?_
  rcases h.within.total h'.within with hst | hts
  · rw [h'.unbound s h.within hst hne] at hget
    cases hget
  · rw [h.unbound t h'.within hts (Ne.symm hne)] at hget'
    cases hget'

/-- A name that is bound nowhere on the way outward is bound in no scope that it is exposed to. -/
theorem Unbound.not_bound (h : heap.Unbound d name) (h' : heap.Exposes d s name)
    (hget : (heap.bindings s).get? name = some v) : False := by
  rw [h s h'.within] at hget
  cases hget

/-- A name means one thing only. -/
theorem Means.unique (h : heap.Means d name r) (h' : heap.Means d name r') : r = r' := by
  cases h with
  | bound hexposed hget =>
      cases h' with
      | bound hexposed' hget' =>
          rw [hexposed.unique hexposed' hget hget', hget'] at hget
          rw [Option.some.inj hget]
      | builtin hunbound | nothing hunbound => exact (hunbound.not_bound hexposed hget).elim
  | builtin hunbound hname =>
      cases h' with
      | bound hexposed' hget' => exact (hunbound.not_bound hexposed' hget').elim
      | builtin _ hname' =>
          have hb := Builtin.ofName?_eq_some_iff.2 hname
          rw [Builtin.ofName?_eq_some_iff.2 hname'] at hb
          rw [Option.some.inj hb]
      | nothing _ hnone => exact absurd hname (hnone _)
  | nothing hunbound hnone =>
      cases h' with
      | bound hexposed' hget' => exact (hunbound.not_bound hexposed' hget').elim
      | builtin _ hname' => exact absurd hname' (hnone _)
      | nothing => rfl

/-- Looking up a name finds what it means. -/
theorem lookup_eq_iff_means : heap.lookup d name = r ↔ heap.Means d name r := by
  constructor
  · rintro rfl
    exact means_lookup heap d name
  · exact (means_lookup heap d name).unique

/-! ### Definitions -/

/-- A definition changes nothing about what lies within what. -/
theorem within_define : (heap.define s name v).Within d t ↔ heap.Within d t :=
  within_congr (parent?_define heap s name v)

/-- After a definition a name is bound to the new value in its scope and to what it was elsewhere. -/
theorem get?_bindings_define (hs : s < heap.size) :
    ((heap.define s name v).bindings t).get? name' =
      if t = s ∧ name' = name then some v else (heap.bindings t).get? name' := by
  rw [bindings_define]
  by_cases ht : t = s
  · simp [ht, hs, Bindings.get?_insert]
  · simp [ht]

/-- A definition changes no other name and no other scope. -/
theorem get?_bindings_define_of_ne (hs : s < heap.size) (h : ¬ (t = s ∧ name' = name)) :
    ((heap.define s name v).bindings t).get? name' = (heap.bindings t).get? name' := by
  rw [get?_bindings_define hs, if_neg h]

/-- A name that was not exposed to the scope of a definition is not met there either. -/
theorem Exposes.define (hs : s < heap.size) (hexposed : ¬ (name' = name ∧ heap.Exposes d s name))
    (h : heap.Exposes d t name') : (heap.define s name v).Exposes d t name' where
  within := within_define.2 h.within
  unbound := by
    intro u hu hut hne
    rw [within_define] at hu hut
    rw [get?_bindings_define_of_ne hs]
    · exact h.unbound u hu hut hne
    · rintro ⟨rfl, rfl⟩
      exact hexposed ⟨rfl, h.of_within hu hut⟩

/-- A name that no scope on the way binds is exposed to all of them. -/
theorem Unbound.exposes (h : heap.Unbound d name) (hs : heap.Within d s) : heap.Exposes d s name :=
  ⟨hs, fun t ht _ _ => h t ht⟩

/-- A name that is not exposed to the definition stays bound nowhere. -/
theorem Unbound.define (hs : s < heap.size) (hexposed : ¬ (name' = name ∧ heap.Exposes d s name))
    (h : heap.Unbound d name') : (heap.define s name v).Unbound d name' := by
  intro t ht
  rw [within_define] at ht
  rw [get?_bindings_define_of_ne hs]
  · exact h t ht
  · rintro ⟨rfl, rfl⟩
    exact hexposed ⟨rfl, h.exposes ht⟩

/-- What a name means where the definition is not seen it means after the definition. -/
theorem Means.define (hs : s < heap.size) (hexposed : ¬ (name' = name ∧ heap.Exposes d s name))
    (h : heap.Means d name' r) : (heap.define s name v).Means d name' r := by
  cases h with
  | bound hexposed' hget =>
      refine .bound (hexposed'.define hs hexposed) ?_
      rw [get?_bindings_define_of_ne hs]
      · exact hget
      · rintro ⟨rfl, rfl⟩
        exact hexposed ⟨rfl, hexposed'⟩
  | builtin hunbound hname => exact .builtin (hunbound.define hs hexposed) hname
  | nothing hunbound hname => exact .nothing (hunbound.define hs hexposed) hname

/-- A definition does what it is to do: it is seen where the name is exposed to it, and nowhere
else. -/
theorem defines_define (hs : s < heap.size) (name : String) (v : Value) :
    heap.Defines s name v ((heap.bindings s).get? name) (heap.define s name v) where
  former_eq := rfl
  seen := by
    intro d hexposed
    rw [lookup_eq_iff_means]
    refine .bound (s := s) ⟨within_define.2 hexposed.within, ?_⟩ ?_
    · intro t ht hts hne
      rw [within_define] at ht hts
      rw [get?_bindings_define_of_ne hs fun heq => hne heq.1]
      exact hexposed.unbound t ht hts hne
    · rw [get?_bindings_define hs, if_pos ⟨rfl, rfl⟩]
  unseen := by
    intro d name' hexposed
    rw [lookup_eq_iff_means]
    exact (means_lookup heap d name').define hs hexposed

/-- **A definition changes the look-ups that it should and no others.** In every heap, looking up a
name from a scope finds what the nearest scope binds it to, else the builtin function of that name,
else nothing. After a definition in a scope, exactly those look-ups of the name find the new value
that start within the scope and meet no other binding on the way to it; all others find what they
found. A definition in the root does the same there. Both give back what the scope they write to bound
the name to itself. -/
theorem definition_changes_exposed_lookups (hs : s < heap.size) (name : String) (v : Value) :
    (∀ d name' r, heap.lookup d name' = r ↔ heap.Means d name' r) ∧
      heap.Defines s name v (heap.defineLocal s name v).1 (heap.defineLocal s name v).2 ∧
      heap.Within s (heap.root s) ∧ heap.parent? (heap.root s) = none ∧
      heap.Defines (heap.root s) name v (heap.defineGlobal s name v).1
        (heap.defineGlobal s name v).2 := by
  have hroot : heap.root s < heap.size := Nat.lt_of_le_of_lt (within_root heap s).le hs
  exact ⟨fun _ _ _ => lookup_eq_iff_means, defines_define hs name v, within_root heap s,
    parent?_root heap s, defines_define hroot name v⟩

/-- A name that is defined in the root from the innermost of three scopes is seen from the root, but
not from where the scope between binds the name itself. A sibling of that one sees it. -/
theorem shadowed_root_definition :
    let heap := (((initial.spawn 0).2.spawn 1).2.spawn 0).2.define 1 "x" (.integer 1)
    let heap' := (heap.defineGlobal 2 "x" (.integer 7)).2
    2 < heap.size ∧ heap.Exposes 3 0 "x" ∧ ¬ heap.Exposes 2 0 "x" ∧
      heap'.lookup 3 "x" = .ok (.integer 7) ∧ heap'.lookup 2 "x" = heap.lookup 2 "x" := by
  intro heap heap'
  have hsize : 2 < heap.size := by decide
  have h21 : heap.parent? 2 = some 1 := rfl
  have h10 : heap.parent? 1 = some 0 := rfl
  have h30 : heap.parent? 3 = some 0 := rfl
  have hroot : heap.root 2 = 0 := by
    rw [root_of_parent h21, root_of_parent h10]
    exact root_of_no_parent rfl
  have hexposed : heap.Exposes 3 0 "x" := .step h30 rfl (.refl heap 0 "x")
  have hhidden : ¬ heap.Exposes 2 0 "x" := by
    intro h
    have hbound : (heap.bindings 1).get? "x" = some (.integer 1) := rfl
    rw [h.unbound 1 (.step h21 (.refl 1)) (.step h10 (.refl 0)) (by decide)] at hbound
    cases hbound
  obtain ⟨-, -, -, -, hdefines⟩ := definition_changes_exposed_lookups hsize "x" (.integer 7)
  rw [hroot] at hdefines
  exact ⟨hsize, hexposed, hhidden, hdefines.seen 3 hexposed,
    hdefines.unseen 2 "x" fun h => hhidden h.2⟩

end Heap

end QuoteLisp
