import QuoteLisp.Proofs.Decoding
import QuoteLisp.Proofs.Numerals
import QuoteLisp.Proofs.PartDiscipline
import QuoteLisp.Proofs.Programs
import QuoteLisp.Value.Render

/-!
# Values print as one line

The names of symbols and parameters are the only texts inside values that come from outside. The
reader lets only symbols through, and evaluation makes no new names, so where all names that are
written or bound are spelled as symbols, all names that come out are (`PartDiscipline.named`). Such
names have no newline, and neither has anything else that is printed: numbers, sentences, brackets and
single spaces. What is cut off at the end of a buffer adds none.
-/

set_option autoImplicit false

namespace QuoteLisp

/-! ### Names -/

/-- The names in a value itself, those in its items aside, are spelled as symbols. -/
def Value.IsNamed : Value → Prop
  | .symbol name => Lexeme.symbol.Fits name.toList
  | .lambda formals _ _ => ∀ name ∈ formals.names, Lexeme.symbol.Fits name.toList
  | .integer _ | .double _ | .fault _ | .builtin _ | .sexpr _ | .qexpr _ => True

/-- Names: all symbols and parameters are spelled as symbols. -/
def PartDiscipline.named : PartDiscipline where
  ok := Value.IsNamed
  sexpr _ := trivial
  qexpr _ := trivial
  integer _ := trivial
  fault _ := trivial
  builtin _ := trivial
  lambda := Iff.rfl
  calculate _ _ := trivial

/-- The names in a program fit the class of symbols. -/
theorem Value.allNamed_of_parse {line : List Char} {program : Value}
    (h : parse line = .ok program) : program.AllParts IsNamed := by
  intro u hu
  have hplain := plain_of_parse h u hu
  cases u with
  | symbol name => exact fits_of_mem_parts_of_parse h hu
  | lambda formals body closure => exact absurd hplain id
  | _ => trivial

/-! ### Texts without a newline -/

/-- A newline belongs to no word. -/
theorem newline_not_mem_of_isWordChar {cs : List Char}
    (h : ∀ c ∈ cs, Token.isWordChar c = true) : '\n' ∉ cs := by
  intro hmem
  have hword := h '\n' hmem
  revert hword
  decide

/-- What fits a class has no newline. -/
theorem Lexeme.Fits.newline_not_mem {cs : List Char} {lexeme : Lexeme} (h : lexeme.Fits cs) :
    '\n' ∉ cs :=
  newline_not_mem_of_isWordChar h.isWordChar

/-- A double is printed without newlines. -/
theorem Numeric.newline_not_mem_writeDouble (x : Double) : '\n' ∉ writeDouble x := by
  by_cases hx : x.isFinite = true
  · exact (fits_writeDouble hx).newline_not_mem
  · simp only [writeDouble, hx]
    grind

/-- The message of a fault has no newline. -/
theorem Fault.newline_not_mem_message (cause : Fault) : '\n' ∉ cause.message.toList := by
  cases cause <;> decide

/-- A builtin function is printed without newlines. -/
theorem Builtin.newline_not_mem_text (function : Builtin) : '\n' ∉ function.text.toList := by
  cases function with
  | arith op => cases op <;> decide
  | _ => decide

/-- Spaces between texts without newlines bring in no newline. -/
theorem Value.newline_not_mem_spaced {items : List (List Char)} (h : ∀ item ∈ items, '\n' ∉ item) :
    '\n' ∉ spaced items := by
  induction items with
  | nil => simp [spaced, List.intercalate]
  | cons item items ih =>
      have hitem := h item List.mem_cons_self
      have hitems := ih fun item' hmem => h item' (List.mem_cons_of_mem _ hmem)
      cases items with
      | nil => simpa [spaced_singleton] using hitem
      | cons item' items => simp [spaced_cons_cons, hitem, hitems]

/-- Parameters with names that are symbols are printed without newlines. -/
theorem Formals.newline_not_mem_spell {formals : Formals}
    (h : ∀ name ∈ formals.names, Lexeme.symbol.Fits name.toList) : '\n' ∉ formals.spell := by
  have hnames : '\n' ∉ Value.spaced (formals.names.map String.toList) := by
    apply Value.newline_not_mem_spaced
    intro item hitem
    obtain ⟨name, hname, rfl⟩ := List.mem_map.1 hitem
    exact (h name hname).newline_not_mem
  simpa [spell, Value.spaced] using hnames

namespace Value

mutual

/-- A value with names that are symbols is printed without newlines. -/
theorem newline_not_mem_spell : ∀ {v : Value}, v.AllParts IsNamed → '\n' ∉ v.spell
  | .integer n, _ => by
      rw [spell]
      exact (Numeric.fits_writeInt n.toInt).newline_not_mem
  | .double x, _ => by
      rw [spell]
      exact Numeric.newline_not_mem_writeDouble x
  | .fault cause, _ => by
      rw [spell]
      exact cause.newline_not_mem_message
  | .symbol name, h => by
      have hfits : Lexeme.symbol.Fits name.toList := h.self
      rw [spell]
      exact hfits.newline_not_mem
  | .builtin function, _ => by
      rw [spell]
      exact function.newline_not_mem_text
  | .lambda formals body closure, h => by
      have hbody := newline_not_mem_spaced (newline_not_mem_spellEach (allParts_lambda.1 h).2)
      have hformals := Formals.newline_not_mem_spell h.self
      simp [spell, hbody, hformals]
  | .sexpr items, h => by
      have hitems := newline_not_mem_spaced (newline_not_mem_spellEach (allParts_sexpr.1 h).2)
      simp [spell, hitems]
  | .qexpr items, h => by
      have hitems := newline_not_mem_spaced (newline_not_mem_spellEach (allParts_qexpr.1 h).2)
      simp [spell, hitems]

/-- Values with names that are symbols are printed without newlines. -/
theorem newline_not_mem_spellEach : ∀ {vs : List Value}, (∀ v ∈ vs, v.AllParts IsNamed) →
    ∀ item ∈ spellEach vs, '\n' ∉ item
  | [], _ => by simp [spellEach]
  | v :: vs, h => by
      intro item hitem
      rcases List.mem_cons.1 hitem with rfl | hitem
      · exact newline_not_mem_spell (h v List.mem_cons_self)
      · exact newline_not_mem_spellEach (fun w hw => h w (List.mem_cons_of_mem _ hw)) item hitem

end

/-! ### Results as they are shown -/

/-- The text of a value has the characters that it is printed with. -/
theorem toList_text (v : Value) : v.text.toList = v.spell :=
  String.toList_ofList

/-- The bytes of the text of a value are those characters, encoded. -/
theorem bytes_text (v : Value) : Text.bytes v.text = Text.encode v.spell := by
  rw [Text.bytes_eq_encode, toList_text]

/-- Pieces that are encoded one by one are encoded as a whole. -/
theorem flatten_map_encode (pieces : List (List Char)) :
    (pieces.map Text.encode).flatten = Text.encode pieces.flatten := by
  induction pieces with
  | nil => rfl
  | cons piece pieces ih => simp [ih]

/-- A result is shown as what can be decoded of as many bytes as the buffer holds. -/
theorem format_eq (v : Value) :
    v.format = Text.decodeLossy ((Text.encode v.spell).take (outputCapacity - 1)) := by
  have hne : ¬ (List.replicate outputCapacity (0 : UInt8)).isEmpty = true := by
    simp [outputCapacity]
  simp only [format, renderInto, fillBuffer, if_neg hne, Sink.fresh, List.length_replicate,
    Sink.written_writeAll, flatten_map_encode, flatten_pieces, List.nil_append]
  rw [List.take_left]

/-- A value with names that are symbols is shown on one line, cut or not. -/
theorem newline_not_mem_format {v : Value} (h : v.AllParts IsNamed) : '\n' ∉ v.format := by
  obtain ⟨front, hfit, hdecode⟩ :=
    Text.exists_isLongestFit_decodeLossy v.spell (outputCapacity - 1)
  have hfront : '\n' ∉ front := fun hmem => newline_not_mem_spell h (hfit.beginning.subset hmem)
  rw [format_eq, hdecode]
  split
  · simp [hfront, Text.replacement]
  · simpa using hfront

end Value

end QuoteLisp
