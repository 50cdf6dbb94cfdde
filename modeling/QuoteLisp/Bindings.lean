import QuoteLisp.NameOrder
import QuoteLisp.Value

/-!
# Bindings of one scope

A finite map from names to values, kept as a list in the order of the names' bytes without
repetition, so that two maps with the same names list them alike. `get?_insert` is all there is to
know about what a name is bound to, and `pairwise_names` about the order of the names.
-/

set_option autoImplicit false

namespace QuoteLisp

/-- A finite map from names to values. -/
structure Bindings where
  entries : List (String × Value)
  sorted : entries.Pairwise fun a b => NameBefore a.1 b.1

namespace Bindings

/-- No names are bound. -/
def empty : Bindings := ⟨[], List.Pairwise.nil⟩

instance : Inhabited Bindings := ⟨empty⟩

/-- The value of the first entry with a name. -/
def findEntry (name : String) : List (String × Value) → Option Value
  | [] => none
  | (n, v) :: rest => if name = n then some v else findEntry name rest

/-- The value bound to a name. -/
def get? (bindings : Bindings) (name : String) : Option Value :=
  findEntry name bindings.entries

/-- The bound names in order. -/
def names (bindings : Bindings) : List String :=
  bindings.entries.map Prod.fst

/-- Puts an entry at its place among sorted entries, instead of the one with the same name. -/
def insertEntry (name : String) (v : Value) : List (String × Value) → List (String × Value)
  | [] => [(name, v)]
  | (n, w) :: rest =>
      if name = n then (name, v) :: rest
      else if NameBefore name n then (name, v) :: (n, w) :: rest
      else (n, w) :: insertEntry name v rest

/-- The names after a definition are the old ones and the new one. -/
theorem mem_insertEntry {name : String} {v : Value} {entries : List (String × Value)}
    {a : String × Value} (h : a ∈ insertEntry name v entries) : a.1 = name ∨ a ∈ entries := by
  induction entries with
  | nil =>
      left
      simp only [insertEntry, List.mem_singleton] at h
      rw [h]
  | cons b rest ih =>
      simp only [insertEntry] at h
      split at h
      · rcases List.mem_cons.1 h with rfl | h
        · exact .inl rfl
        · exact .inr (List.mem_cons_of_mem _ h)
      · split at h
        · rcases List.mem_cons.1 h with rfl | h
          · exact .inl rfl
          · exact .inr h
        · rcases List.mem_cons.1 h with rfl | h
          · exact .inr List.mem_cons_self
          · exact (ih h).imp_right (List.mem_cons_of_mem _)

/-- A definition keeps the entries sorted. -/
theorem pairwise_insertEntry (name : String) (v : Value) {entries : List (String × Value)}
    (h : entries.Pairwise fun a b => NameBefore a.1 b.1) :
    (insertEntry name v entries).Pairwise fun a b => NameBefore a.1 b.1 := by
  induction entries with
  | nil => exact List.pairwise_singleton _ _
  | cons b rest ih =>
      obtain ⟨hb, hrest⟩ := List.pairwise_cons.1 h
      simp only [insertEntry]
      split
      · next heq => exact List.pairwise_cons.2 ⟨fun a ha => heq ▸ hb a ha, hrest⟩
      · next hne =>
          split
          · next hlt =>
              refine List.pairwise_cons.2 ⟨fun a ha => ?_, h⟩
              rcases List.mem_cons.1 ha with rfl | ha
              · exact hlt
              · exact hlt.trans (hb a ha)
          · next hnlt =>
              refine List.pairwise_cons.2 ⟨fun a ha => ?_, ih hrest⟩
              rcases mem_insertEntry ha with heq | ha
              · exact heq ▸ NameBefore.of_not hne hnlt
              · exact hb a ha

/-- Binds a name to a value, in place of what it was bound to. -/
def insert (bindings : Bindings) (name : String) (v : Value) : Bindings :=
  ⟨insertEntry name v bindings.entries, pairwise_insertEntry name v bindings.sorted⟩

/-- Nothing is bound where there are no bindings. -/
@[simp]
theorem get?_empty (name : String) : empty.get? name = none := rfl

/-- After a definition the name has the new value and every other name what it had. -/
theorem get?_insert (bindings : Bindings) (name : String) (v : Value) (other : String) :
    (bindings.insert name v).get? other =
      if other = name then some v else bindings.get? other := by
  show findEntry other (insertEntry name v bindings.entries) =
    if other = name then some v else findEntry other bindings.entries
  induction bindings.entries with
  | nil => simp [insertEntry, findEntry]
  | cons b rest ih =>
      simp only [insertEntry]
      split
      · next heq =>
          simp only [findEntry, ← heq]
          grind
      · next hne =>
          split
          · simp [findEntry]
          · simp only [findEntry, ih]
            grind

/-- The names are in strictly increasing order. -/
theorem pairwise_names (bindings : Bindings) : bindings.names.Pairwise NameBefore :=
  List.pairwise_map.2 bindings.sorted

end Bindings

end QuoteLisp
