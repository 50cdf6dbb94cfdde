import QuoteLisp.Proofs.Wrapping

/-!
# Printed lambdas evaluate to themselves

A lambda is printed as the program that makes it: a backslash, the list of its parameters and the list
that is its body (`spell_lambda`). If the names and the body can be read back, so can that program, and
where the backslash means the builtin function its evaluation splits the names into the same parameters
again (`finishes_abstraction`). The scope is not printed; it is the one in which the program is
evaluated, so a printed lambda gives back the same lambda where it was made.
-/

set_option autoImplicit false

namespace QuoteLisp

/-! ### Data is equal to itself -/

/-- A finite double equals itself. -/
theorem Numeric.Double.equal_self {x : Double} (hx : x.isFinite = true) : x.equal x = true := by
  have hnan : x.isNaN = false := by
    simp only [isFinite, isNaN, decide_eq_true_eq, decide_eq_false_iff_not] at hx ⊢
    omega
  simp [equal, hnan]

namespace Value

mutual

/-- Data that can be read back is equal to itself, as all its doubles are numbers. -/
theorem Readable.equal_self : ∀ {v : Value}, v.Readable → v.equal v = true
  | .integer n, _ => by simp [equal]
  | .double x, hx => by
      rw [equal]
      exact Numeric.Double.equal_self hx
  | .symbol name, _ => by simp [equal]
  | .sexpr _, hitems => by
      rw [equal]
      exact AreReadable.equalAll_self hitems
  | .qexpr _, hitems => by
      rw [equal]
      exact AreReadable.equalAll_self hitems
  | .fault _, h => absurd h id
  | .builtin _, h => absurd h id
  | .lambda _ _ _, h => absurd h id

/-- Values that can be read back equal themselves. -/
theorem AreReadable.equalAll_self : ∀ {vs : List Value}, AreReadable vs → equalAll vs vs = true
  | [], _ => by rw [equalAll]
  | v :: vs, h => by
      rw [equalAll, Bool.and_eq_true]
      exact ⟨Readable.equal_self h.1, AreReadable.equalAll_self h.2⟩

end

/-! ### The program that makes a lambda -/

/-- The program that makes a lambda with these names and this body. -/
def abstraction (names : List String) (body : List Value) : Value :=
  .sexpr [.symbol "\\", .qexpr (names.map .symbol), .qexpr body]

/-- Symbols are printed as their names. -/
theorem spellEach_map_symbol (names : List String) :
    spellEach (names.map .symbol) = names.map String.toList := by
  induction names with
  | nil => simp [spellEach]
  | cons name names ih => simp [spellEach, spell, ih]

/-- A lambda is printed as the program that makes it. -/
theorem spell_lambda (formals : Formals) (body : List Value) (closure : ScopeId) :
    (Value.lambda formals body closure).spell = (abstraction formals.names body).spell := by
  simp [abstraction, spell, spellEach, spellEach_map_symbol, Formals.spell, spaced,
    List.intercalate]

/-- Symbols whose names fit the class can be read back. -/
theorem areReadable_map_symbol {names : List String}
    (h : ∀ name ∈ names, Lexeme.symbol.Fits name.toList) : AreReadable (names.map .symbol) := by
  induction names with
  | nil => trivial
  | cons name names ih =>
      have hnames := ih fun name' hmem => h name' (List.mem_cons_of_mem _ hmem)
      exact ⟨h name List.mem_cons_self, hnames⟩

/-- A lambda that is written with its parameters and its body can be read back when these can. -/
theorem readable_abstraction {names : List String} {body : List Value}
    (hnames : ∀ name ∈ names, Lexeme.symbol.Fits name.toList) (hbody : AreReadable body) :
    (abstraction names body).Readable := by
  have hbackslash : Lexeme.symbol.Fits "\\".toList := Lexeme.classify?_eq_some_iff.1 (by decide)
  exact ⟨hbackslash, areReadable_map_symbol hnames, hbody, trivial⟩

/-- A printed value that can be read back spells the program of that one value. -/
theorem Readable.parse_spell {v : Value} (h : v.Readable) : parse v.spell = .ok (.sexpr [v]) := by
  obtain ⟨node, hnode⟩ := h.exists_standsFor
  have hmeans : ofNodes [node] = .ok [v] := by simp [ofNodes, hnode.means]
  rw [parse, hnode.read_spell]
  exact adapt_root hmeans

end Value

/-- Where the backslash means the builtin function, the program that makes a lambda makes it, and
nothing else happens. -/
theorem finishes_abstraction {heap : Heap} {scope : ScopeId} {names : List String}
    {formals : Formals} {body : List Value} (hformals : Formals.ofNames names = .ok formals)
    (hlambda : heap.lookup scope "\\" = .ok (.builtin .lambda)) :
    Finishes heap scope (.abstraction names body) (.lambda formals body scope) heap := by
  have hperform : Builtin.lambda.perform scope [.qexpr (names.map .symbol), .qexpr body] =
      .ok (.give (.lambda formals body scope)) := by
    simp [Builtin.perform, Builtin.abstract, Value.toItems, Builtin.toNames_map_symbol, hformals]
  have hnames : Reduces heap scope (.qexpr (names.map .symbol)) (.qexpr (names.map .symbol)) heap :=
    .normal trivial
  have hbody : Reduces heap scope (.qexpr body) (.qexpr body) heap := .normal trivial
  apply Reduces.finishes
  apply Reduces.applied (.cons (.symbol hlambda) rfl (.cons hnames rfl (.cons hbody rfl .nil)))
  · rfl
  · simp
  · exact .gives rfl hperform

/-- **A printed lambda, evaluated where it was made, is the same lambda.** If its parameters come from
names that are spelled as symbols and its body can be read back, and the backslash means the builtin
function in the scope that the lambda closes over, then the printed form of the lambda as a line in
that scope finishes with the lambda itself, in no other way, and leaves the heap as it is. The lambda is
equal to itself, so the result is equal to it. -/
theorem printed_lambda_evaluates_to_itself {names : List String} {formals : Formals}
    {body : List Value} {heap : Heap} {closure : ScopeId}
    (hformals : Formals.ofNames names = .ok formals)
    (hnames : ∀ name ∈ names, Lexeme.symbol.Fits name.toList) (hbody : Value.AreReadable body)
    (hlambda : heap.lookup closure "\\" = .ok (.builtin .lambda)) :
    (∀ result heap', Session.FinishesLine heap closure
        (Value.lambda formals body closure).text.toList result heap' ↔
      result = .ok (.lambda formals body closure) ∧ heap' = heap) ∧
    (Value.lambda formals body closure).equal (.lambda formals body closure) = true := by
  have hparse : Value.parse (Value.lambda formals body closure).text.toList =
      .ok (.sexpr [.abstraction names body]) := by
    rw [Value.text, String.toList_ofList, Value.spell_lambda, Formals.names_eq_of_ofNames hformals]
    exact (Value.readable_abstraction hnames hbody).parse_spell
  have hmade : Finishes heap closure (.sexpr [.abstraction names body])
      (.lambda formals body closure) heap :=
    finishes_lone.2 (finishes_abstraction hformals hlambda)
  refine ⟨?_, ?_⟩
  · intro result heap'
    rw [Session.finishesLine_iff hparse]
    constructor
    · rintro ⟨r, rfl, hfinishes⟩
      obtain ⟨rfl, rfl⟩ := hmade.unique hfinishes
      exact ⟨rfl, rfl⟩
    · rintro ⟨rfl, rfl⟩
      exact ⟨_, rfl, hmade⟩
  · have hself := hbody.equalAll_self
    simp [Value.equal, hself]

section Sample

/-- A body with a list in a list, an empty program and a negative zero. -/
def sampleBody : List Value :=
  [.symbol "join", .qexpr [.double ⟨0x8000000000000000⟩, .symbol "x", .sexpr []], .symbol "xs"]

/-- A lambda that takes any number of arguments and closes over an inner scope. -/
def sampleLambda : Value := .lambda ⟨["x"], some "xs"⟩ sampleBody 1

/-- A heap with an inner scope that binds the lambda. -/
def sampleHeap : Heap := (Heap.initial.spawn 0).2.define 1 "f" sampleLambda

/-- A lambda with a rest parameter, a negative zero and lists in its body prints as a line that
gives it back in its own scope. -/
theorem sample_lambda_printed :
    sampleLambda.text = "(\\ \x7bx & xs\x7d \x7bjoin \x7b-0.0 x ()\x7d xs\x7d)" ∧
      Formals.ofNames ["x", "&", "xs"] = .ok ⟨["x"], some "xs"⟩ ∧
      Value.AreReadable sampleBody ∧
      sampleHeap.lookup 1 "\\" = .ok (.builtin .lambda) ∧
      Session.FinishesLine sampleHeap 1 sampleLambda.text.toList (.ok sampleLambda) sampleHeap ∧
      sampleLambda.equal sampleLambda = true := by
  have hfits : ∀ name ∈ ["join", "x", "&", "xs"], Lexeme.symbol.Fits name.toList := by
    simp only [← Lexeme.classify?_eq_some_iff]
    decide
  have hformals : Formals.ofNames ["x", "&", "xs"] = .ok ⟨["x"], some "xs"⟩ := by decide
  have hnames : ∀ name ∈ ["x", "&", "xs"], Lexeme.symbol.Fits name.toList :=
    fun name hname => hfits name (List.mem_cons_of_mem _ hname)
  have hfinite : (⟨0x8000000000000000⟩ : Numeric.Double).isFinite = true := by decide
  have hbody : Value.AreReadable sampleBody :=
    ⟨hfits "join" (by simp), ⟨hfinite, hfits "x" (by simp), trivial, trivial⟩,
      hfits "xs" (by simp), trivial⟩
  have hlambda : sampleHeap.lookup 1 "\\" = .ok (.builtin .lambda) := by cbv
  obtain ⟨hline, hequal⟩ := printed_lambda_evaluates_to_itself hformals hnames hbody hlambda
  exact ⟨by decide +kernel, hformals, hbody, hlambda, (hline _ _).2 ⟨rfl, rfl⟩, hequal⟩

end Sample

end QuoteLisp
