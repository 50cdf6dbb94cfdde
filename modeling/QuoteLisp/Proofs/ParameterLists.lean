import QuoteLisp.Proofs.Definitions

/-!
# Lists of parameters

A list of names is split into parameters by the place of its ampersand. `Formals.Splits` has one rule
for each way in which that can go, told by where the ampersands stand and not by how they are looked
for. Every list goes one of these ways, and splitting goes the same (`Formals.ofNames_eq_iff_splits`).

So splitting undoes writing: parameters none of whose names is an ampersand are what the list of their
names is split into, and no other list is split into them. A lambda is made from exactly the lists
that can be split.
-/

set_option autoImplicit false

namespace QuoteLisp

namespace Formals

/-- No parameter has the name that announces the rest. -/
def NoAmpersand (formals : Formals) : Prop :=
  ampersand ∉ formals.positional ∧ formals.rest ≠ some ampersand

/-- What a list of names is split into, by where its ampersands stand. -/
inductive Splits : List String → Except Malformed Formals → Prop where
  | positional {names : List String} : ampersand ∉ names → Splits names (.ok ⟨names, none⟩)
  | withRest {front : List String} {last : String} : ampersand ∉ front → last ≠ ampersand →
      Splits (front ++ [ampersand, last]) (.ok ⟨front, some last⟩)
  | nothingAfter {front : List String} : ampersand ∉ front →
      Splits (front ++ [ampersand]) (.error .nothingAfterAmpersand)
  | notPenultimate {front back : List String} : ampersand ∉ front → ampersand ∉ back →
      2 ≤ back.length → Splits (front ++ ampersand :: back) (.error .ampersandNotPenultimate)
  | tooMany {names : List String} {count : Nat} : names.count ampersand = count → 2 ≤ count →
      Splits names (.error (.tooManyAmpersands count))

variable {names front back : List String} {last : String} {formals : Formals} {count : Nat}
  {r : Except Malformed Formals}

/-! ### One ampersand -/

/-- The ampersand between two lists is the only one when neither list has one. -/
theorem count_eq_one_iff :
    (front ++ ampersand :: back).count ampersand = 1 ↔
      ampersand ∉ front ∧ ampersand ∉ back := by
  rw [List.count_append, List.count_cons_self, ← List.count_eq_zero, ← List.count_eq_zero]
  omega

/-- The walk up to the ampersand stops there, and what comes after it decides. -/
theorem ofNames_of_one (hfront : ampersand ∉ front) (hback : ampersand ∉ back) :
    ofNames (front ++ ampersand :: back) =
      match back with
      | [] => .error .nothingAfterAmpersand
      | [last] => .ok ⟨front, some last⟩
      | _ => .error .ampersandNotPenultimate := by
  have hne : ∀ name ∈ front, (name != ampersand) = true := by
    intro name hname
    rw [bne_iff_ne]
    rintro rfl
    exact hfront hname
  have htake : (front ++ ampersand :: back).takeWhile (· != ampersand) = front := by
    rw [List.takeWhile_append_of_pos hne]
    simp
  have hdrop : (front ++ ampersand :: back).dropWhile (· != ampersand) = ampersand :: back := by
    rw [List.dropWhile_append_of_pos hne]
    simp
  simp only [ofNames, count_eq_one_iff.2 ⟨hfront, hback⟩, htake, hdrop]
  rcases back with _ | ⟨first, _ | ⟨second, back⟩⟩ <;> rfl

/-! ### Splitting goes by the rules -/

/-- Names are split as the place of their ampersands says. -/
theorem Splits.ofNames_eq (h : Splits names r) : ofNames names = r := by
  cases h with
  | positional hnames => simp only [ofNames, List.count_eq_zero.2 hnames]
  | withRest hfront hlast => exact ofNames_of_one hfront (by simpa using hlast.symm)
  | nothingAfter hfront => exact ofNames_of_one hfront List.not_mem_nil
  | @notPenultimate front back hfront hback hlength =>
      rw [ofNames_of_one hfront hback]
      rcases back with _ | ⟨first, _ | ⟨second, back⟩⟩
      · simp at hlength
      · simp at hlength
      · rfl
  | @tooMany _ count hcount htwo =>
      obtain ⟨k, rfl⟩ := Nat.exists_eq_add_of_le' htwo
      simp only [ofNames, hcount]

/-- Every list of names is split in one of the ways. -/
theorem exists_splits (names : List String) : ∃ r, Splits names r := by
  rcases Nat.lt_trichotomy (names.count ampersand) 1 with hnone | hone | hmany
  · have hnames : ampersand ∉ names := List.count_eq_zero.1 (Nat.lt_one_iff.1 hnone)
    exact ⟨_, .positional hnames⟩
  · have hmem : ampersand ∈ names := List.count_pos_iff.1 (by omega)
    obtain ⟨front, back, rfl⟩ := List.append_of_mem hmem
    obtain ⟨hfront, hback⟩ := count_eq_one_iff.1 hone
    rcases back with _ | ⟨first, _ | ⟨second, back⟩⟩
    · exact ⟨_, .nothingAfter hfront⟩
    · exact ⟨_, .withRest hfront (List.ne_of_not_mem_cons hback).symm⟩
    · exact ⟨_, .notPenultimate hfront hback (by simp)⟩
  · exact ⟨_, .tooMany rfl hmany⟩

/-- Splitting gives exactly what the place of the ampersands says. -/
theorem ofNames_eq_iff_splits : ofNames names = r ↔ Splits names r := by
  constructor
  · rintro rfl
    obtain ⟨r, hr⟩ := exists_splits names
    rwa [hr.ofNames_eq]
  · exact Splits.ofNames_eq

/-! ### Writing and splitting -/

/-- Parameters without an ampersand among their names are split from the list of their names. -/
theorem NoAmpersand.splits_names (h : formals.NoAmpersand) : Splits formals.names (.ok formals) := by
  obtain ⟨positional, rest⟩ := formals
  obtain ⟨hpositional, hrest⟩ := h
  cases rest with
  | none => exact .positional hpositional
  | some last => exact .withRest hpositional fun heq => hrest (congrArg some heq)

/-- A list is split into the parameters that are written as it and have no ampersand. -/
theorem splits_ok_iff : Splits names (.ok formals) ↔ formals.names = names ∧ formals.NoAmpersand := by
  constructor
  · intro h
    cases h with
    | positional hnames => exact ⟨rfl, hnames, nofun⟩
    | withRest hfront hlast => exact ⟨rfl, hfront, fun heq => hlast (Option.some.inj heq)⟩
  · rintro ⟨rfl, h⟩
    exact h.splits_names

/-- A list is split into parameters exactly when it has no ampersand, or a single one before its
last name. -/
theorem exists_splits_ok_iff :
    (∃ formals, Splits names (.ok formals)) ↔
      ampersand ∉ names ∨
        names.count ampersand = 1 ∧ ∃ front last, names = front ++ [ampersand, last] := by
  constructor
  · rintro ⟨formals, h⟩
    cases h with
    | positional hnames => exact .inl hnames
    | withRest hfront hlast =>
        exact .inr ⟨count_eq_one_iff.2 ⟨hfront, by simpa using hlast.symm⟩, _, _, rfl⟩
  · rintro (hnames | ⟨hone, front, last, rfl⟩)
    · exact ⟨_, .positional hnames⟩
    · obtain ⟨hfront, hlast⟩ := count_eq_one_iff.1 hone
      exact ⟨_, .withRest hfront (List.ne_of_not_mem_cons hlast).symm⟩

/-! ### Lists that are not split -/

/-- Two ampersands or more are too many, and the fault tells how many. -/
theorem splits_tooMany_iff :
    Splits names (.error (.tooManyAmpersands count)) ↔
      names.count ampersand = count ∧ 2 ≤ count := by
  constructor
  · intro h
    cases h with
    | tooMany hcount htwo => exact ⟨hcount, htwo⟩
  · rintro ⟨hcount, htwo⟩
    exact .tooMany hcount htwo

/-- Nothing comes after an ampersand that is alone and last. -/
theorem splits_nothingAfter_iff :
    Splits names (.error .nothingAfterAmpersand) ↔
      names.count ampersand = 1 ∧ ∃ front, names = front ++ [ampersand] := by
  constructor
  · intro h
    cases h with
    | nothingAfter hfront => exact ⟨count_eq_one_iff.2 ⟨hfront, List.not_mem_nil⟩, _, rfl⟩
  · rintro ⟨hone, front, rfl⟩
    exact .nothingAfter (count_eq_one_iff.1 hone).1

/-- A single ampersand is refused for its place when it is neither last nor before the last name. -/
theorem splits_notPenultimate_iff :
    Splits names (.error .ampersandNotPenultimate) ↔
      names.count ampersand = 1 ∧ (∀ front, names ≠ front ++ [ampersand]) ∧
        ∀ front last, names ≠ front ++ [ampersand, last] := by
  constructor
  · intro h
    -- the three ways for a list with one ampersand exclude each other
    have hothers {r : Except Malformed Formals} (h' : Splits names r) :
        r = .error .ampersandNotPenultimate := h'.ofNames_eq.symm.trans h.ofNames_eq
    have hone : names.count ampersand = 1 := by
      cases h with
      | notPenultimate hfront hback _ => exact count_eq_one_iff.2 ⟨hfront, hback⟩
    refine ⟨hone, ?_, ?_⟩
    · intro front heq
      exact nomatch hothers (splits_nothingAfter_iff.2 ⟨hone, front, heq⟩)
    · intro front last heq
      obtain ⟨formals, hformals⟩ := exists_splits_ok_iff.2 (.inr ⟨hone, front, last, heq⟩)
      exact nomatch hothers hformals
  · rintro ⟨hone, hlast, hpenultimate⟩
    obtain ⟨r, h⟩ := exists_splits names
    cases h with
    | positional hnames =>
        rw [List.count_eq_zero.2 hnames] at hone
        cases hone
    | withRest => exact absurd rfl (hpenultimate _ _)
    | nothingAfter => exact absurd rfl (hlast _)
    | notPenultimate hfront hback hlength => exact .notPenultimate hfront hback hlength
    | tooMany hcount htwo => omega

end Formals

/-! ### Calls that make lambdas -/

namespace Reducer

variable {reduce : Reducer} {heap : Heap} {scope : ScopeId}

/-- A lambda from symbols and a body: the parameters that the names are split into, or a fault. -/
theorem callAs_lambda_symbols (names : List String) (body : List Value) :
    reduce.callAs Builtin.lambda.arity heap scope .lambda
        [.qexpr (names.map .symbol), .qexpr body] =
      match Formals.ofNames names with
      | .ok formals => some (.lambda formals body scope, heap)
      | .error _ => some (.fault .badArgsCount, heap) := by
  have hcheck : Builtin.lambda.arity.check
      [Value.qexpr (names.map .symbol), .qexpr body].length = .ok () := rfl
  simp only [callAs, hcheck, Builtin.perform, Builtin.abstract, Value.toItems,
    Builtin.toNames_map_symbol]
  cases Formals.ofNames names <;> rfl

/-- A parameter that is no symbol is refused for its type. -/
theorem callAs_lambda_of_not_symbol {params : List Value} {param : Value} (hmem : param ∈ params)
    (hparam : ∀ name, param ≠ .symbol name) (body : List Value) :
    reduce.callAs Builtin.lambda.arity heap scope .lambda [.qexpr params, .qexpr body] =
      some (.fault .badType, heap) := by
  have hcheck : Builtin.lambda.arity.check [Value.qexpr params, .qexpr body].length = .ok () := rfl
  simp only [callAs, hcheck, Builtin.perform, Builtin.abstract, Value.toItems,
    Builtin.toNames_of_not_symbol hmem hparam]

/-- Of the two things that can be wrong with a list of parameters, that not all of them are symbols
comes first. -/
theorem callAs_lambda_eq_badType_iff {params body : List Value} :
    reduce.callAs Builtin.lambda.arity heap scope .lambda [.qexpr params, .qexpr body] =
        some (.fault .badType, heap) ↔
      ∃ param ∈ params, ∀ name, param ≠ .symbol name := by
  constructor
  · intro h
    refine (exists_names_or_not_symbol params).resolve_left ?_
    rintro ⟨names, rfl⟩
    rw [callAs_lambda_symbols] at h
    cases hnames : Formals.ofNames names <;> simp [hnames] at h
  · rintro ⟨param, hmem, hparam⟩
    exact callAs_lambda_of_not_symbol hmem hparam body

/-- Parameters that are symbols are refused for their number exactly when they cannot be split. -/
theorem callAs_lambda_eq_badArgsCount_iff {names : List String} {body : List Value} :
    reduce.callAs Builtin.lambda.arity heap scope .lambda
        [.qexpr (names.map .symbol), .qexpr body] = some (.fault .badArgsCount, heap) ↔
      ∃ cause, Formals.ofNames names = .error cause := by
  rw [callAs_lambda_symbols]
  cases Formals.ofNames names <;> simp

/-- A lambda is made of the parameters that the symbols are split into. -/
theorem callAs_lambda_eq_lambda_iff {names : List String} {body : List Value} {formals : Formals} :
    reduce.callAs Builtin.lambda.arity heap scope .lambda
        [.qexpr (names.map .symbol), .qexpr body] = some (.lambda formals body scope, heap) ↔
      Formals.ofNames names = .ok formals := by
  rw [callAs_lambda_symbols]
  cases Formals.ofNames names <;> simp

end Reducer

namespace Formals

/-- **Splitting a list of names into parameters undoes writing them out.** A list can be split exactly
when it has no ampersand, or one that stands before the last name. What it is split into is written as
the list again and has no name that is an ampersand, and all parameters without such a name come from
the list that they are written as. A list with two ampersands or more is refused with their number, a
list with one at its end because nothing comes after it, and every other list that has one because it
stands too early. A lambda is refused for a parameter that is not a symbol, and otherwise exactly when
the list of the parameters is. -/
theorem splitting_names_undoes_writing (names : List String) :
    ((∃ formals, ofNames names = .ok formals) ↔
        ampersand ∉ names ∨
          names.count ampersand = 1 ∧ ∃ front last, names = front ++ [ampersand, last]) ∧
      (∀ formals, ofNames names = .ok formals ↔ formals.names = names ∧ formals.NoAmpersand) ∧
      (∀ count, ofNames names = .error (.tooManyAmpersands count) ↔
        names.count ampersand = count ∧ 2 ≤ count) ∧
      (ofNames names = .error .nothingAfterAmpersand ↔
        names.count ampersand = 1 ∧ ∃ front, names = front ++ [ampersand]) ∧
      (ofNames names = .error .ampersandNotPenultimate ↔
        names.count ampersand = 1 ∧ (∀ front, names ≠ front ++ [ampersand]) ∧
          ∀ front last, names ≠ front ++ [ampersand, last]) ∧
      ∀ (bound : Nat) (heap : Heap) (scope : ScopeId) (body : List Value),
        let call (params : List Value) : Outcome :=
          callBuiltin bound Builtin.lambda.arity heap scope .lambda [.qexpr params, .qexpr body]
        (∀ params, call params = some (.fault .badType, heap) ↔
          ∃ param ∈ params, ∀ name, param ≠ .symbol name) ∧
        (call (names.map .symbol) = some (.fault .badArgsCount, heap) ↔
          ∃ cause, ofNames names = .error cause) ∧
        ∀ formals, call (names.map .symbol) = some (.lambda formals body scope, heap) ↔
          ofNames names = .ok formals := by
  refine ⟨(exists_congr fun _ => ofNames_eq_iff_splits).trans exists_splits_ok_iff,
    fun _ => ofNames_eq_iff_splits.trans splits_ok_iff,
    fun _ => ofNames_eq_iff_splits.trans splits_tooMany_iff,
    ofNames_eq_iff_splits.trans splits_nothingAfter_iff,
    ofNames_eq_iff_splits.trans splits_notPenultimate_iff, ?_⟩
  intro bound heap scope body
  exact ⟨fun _ => Reducer.callAs_lambda_eq_badType_iff, Reducer.callAs_lambda_eq_badArgsCount_iff,
    fun _ => Reducer.callAs_lambda_eq_lambda_iff⟩

end Formals

end QuoteLisp
