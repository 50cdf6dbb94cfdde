import QuoteLisp.Proofs.PrintedLines

/-!
# Printed faults cannot be read

A fault is printed as a sentence, and the first word of that sentence is of no class. Everything else
that is printed has words of some class, and brackets that are closed as they were opened; even a
builtin function, which no text makes, is printed as two symbols. So a pass over a printed value, with
whatever brackets open around it, comes out behind the value with the same brackets open, unless there
is a fault in the value: then the first word of the leftmost one stops it (`Value.passes_spell`).
-/

set_option autoImplicit false

namespace QuoteLisp

namespace Value

open Node (firstEvent?)
open Token (EndsWord scan)

/-- The names in a value itself, those in its items aside, match the expression of symbols. They may
look like numbers. -/
def IsSymbolic : Value → Prop
  | .symbol name => name.toList ∈ Lexeme.symbol.pattern.matches'
  | .lambda formals _ _ =>
      ∀ name ∈ formals.positional ++ formals.rest.toList,
        name.toList ∈ Lexeme.symbol.pattern.matches'
  | .integer _ | .double _ | .fault _ | .builtin _ | .sexpr _ | .qexpr _ => True

/-- The word with which the sentence of every fault starts. -/
def faultWord : String := "Error:"

/-- A pass over a text with whatever brackets open comes out behind it, with the same brackets open
for whatever comes next, or, if there is a fault in the text, stops at its first word. -/
def Passes (text : List Char) (faulty : Bool) : Prop :=
  ∀ stack rest, EndsWord rest →
    firstEvent? stack (scan (text ++ rest)) =
      if faulty then some (.badWord faultWord) else firstEvent? stack (scan rest)

variable {text text' : List Char} {faulty faulty' : Bool} {items : List (List Char)}

/-! ### Texts in brackets and one after the other -/

/-- A pass over nothing comes out behind it. -/
theorem passes_nil : Passes [] false := fun _ _ _ => rfl

/-- A word of a class is passed. -/
theorem passes_word {lexeme : Lexeme} (h : text ∈ lexeme.pattern.matches') : Passes text false := by
  intro stack rest hrest
  have hclass : ¬ ∀ lexeme : Lexeme, text ∉ lexeme.pattern.matches' := fun hall => hall lexeme h
  rw [Token.scan_word (Lexeme.ne_nil_of_mem_pattern h) (Lexeme.isWordChar_of_mem_pattern h) hrest,
    firstEvent?, if_neg hclass]
  rfl

/-- Where a space is between two texts, both are passed one after the other. -/
theorem Passes.space (h : Passes text faulty) (h' : Passes text' faulty') :
    Passes (text ++ ' ' :: text') (faulty || faulty') := by
  intro stack rest hrest
  have hspace : EndsWord (' ' :: (text' ++ rest)) := Token.endsWord_cons (by decide) _
  rw [List.append_assoc, List.cons_append, h stack _ hspace,
    Token.scan_separator Text.isSeparator_space, h' stack rest hrest]
  cases faulty <;> rfl

/-- The bracket that a text opens is closed behind it. -/
theorem Passes.inBrackets (bracket : Bracket) (h : Passes text faulty) :
    Passes (bracket.opener :: text ++ [bracket.closer]) faulty := by
  intro stack rest _
  have hend : EndsWord (bracket.closer :: rest) :=
    Token.endsWord_cons (by cases bracket <;> decide) _
  rw [List.append_assoc, List.cons_append, List.singleton_append,
    Token.scan_bracket (Token.ofBracket?_opener bracket), firstEvent?, h _ _ hend,
    Token.scan_bracket (Token.ofBracket?_closer bracket), firstEvent?, if_pos rfl]

/-- A pass over texts with spaces between them stops where the first of them stops it. -/
theorem Passes.spaced_cons (h : Passes text faulty) (hs : Passes (spaced items) faulty') :
    Passes (spaced (text :: items)) (faulty || faulty') := by
  cases items with
  | nil =>
      -- there is no fault where there is no text
      have hnone : faulty' = false := by
        have hempty : firstEvent? [] (scan []) = if faulty' then _ else _ :=
          hs [] [] Token.endsWord_nil
        rw [Token.scan_nil] at hempty
        cases faulty' with
        | true => cases hempty
        | false => rfl
      rw [hnone, Bool.or_false, spaced_singleton]
      exact h
  | cons item items =>
      rw [spaced_cons_cons]
      exact h.space hs

/-! ### What is printed of single values -/

/-- A pass over the printed form of a double, be it finite or not, comes out behind it. -/
theorem passes_double (x : Numeric.Double) : Passes (Numeric.writeDouble x) false := by
  by_cases hx : x.isFinite = true
  · exact passes_word (Numeric.fits_writeDouble hx).mem_pattern
  · have hsymbol : Lexeme.isSymbol (Numeric.writeDouble x) = true := by
      simp only [Numeric.writeDouble, hx, Bool.false_eq_true, if_false]
      cases x.isNaN <;> cases x.isNegative <;> decide
    exact passes_word (Lexeme.isSymbol_iff.1 hsymbol)

/-- A builtin function is printed as two symbols. -/
theorem passes_builtin (function : Builtin) : Passes function.text.toList false := by
  have htext : function.text.toList = "<builtin".toList ++ ' ' :: (function.name ++ ">").toList := by
    simp [Builtin.text]
  have hfirst : Lexeme.isSymbol "<builtin".toList = true := by decide
  have hsecond : Lexeme.isSymbol (function.name ++ ">").toList = true := by
    cases function with
    | arith op => cases op <;> decide
    | _ => decide
  rw [htext]
  exact (passes_word (Lexeme.isSymbol_iff.1 hfirst)).space
    (passes_word (Lexeme.isSymbol_iff.1 hsecond))

/-- The first word of the sentence of a fault is of no class. -/
theorem passes_fault (cause : Fault) : Passes cause.message.toList true := by
  intro stack rest _
  have htext : cause.message.toList = faultWord.toList ++ ' ' :: cause.sentence.toList := by
    simp [Fault.message, faultWord]
  have hspace : EndsWord (' ' :: (cause.sentence.toList ++ rest)) :=
    Token.endsWord_cons (by decide) _
  have hclass : Lexeme.classify? faultWord.toList = none := by decide
  have hword : faultWord.toList.all Token.isWordChar = true := by decide
  rw [htext, List.append_assoc, List.cons_append,
    Token.scan_word (by decide) (List.all_eq_true.1 hword) hspace, firstEvent?,
    if_pos (Lexeme.classify?_eq_none_iff.1 hclass)]
  rfl

/-- A pass over names that match the expression of symbols comes out behind them. -/
theorem passes_names {names : List String}
    (h : ∀ name ∈ names, name.toList ∈ Lexeme.symbol.pattern.matches') :
    Passes (spaced (names.map String.toList)) false := by
  induction names with
  | nil => exact passes_nil
  | cons name names ih =>
      rw [List.forall_mem_cons] at h
      exact (passes_word h.1).spaced_cons (ih h.2)

/-- The ampersand that is printed before the name of the rest is a symbol, too. -/
theorem passes_formals {formals : Formals}
    (h : ∀ name ∈ formals.positional ++ formals.rest.toList,
      name.toList ∈ Lexeme.symbol.pattern.matches') : Passes formals.spell false := by
  have hampersand : Formals.ampersand.toList ∈ Lexeme.symbol.pattern.matches' :=
    Lexeme.isSymbol_iff.1 (by decide)
  have hnames : ∀ name ∈ formals.names, name.toList ∈ Lexeme.symbol.pattern.matches' := by
    obtain ⟨positional, rest⟩ := formals
    cases rest with
    | none => simpa [Formals.names] using h
    | some last =>
        simp only [Formals.names, List.forall_mem_append, List.forall_mem_cons,
          Option.toList_some] at h ⊢
        exact ⟨h.1, hampersand, h.2⟩
  exact (passes_names hnames).inBrackets .brace

/-! ### What is printed of all values -/

mutual

/-- A printed value is passed, unless there is a fault in it. -/
theorem passes_spell : ∀ {v : Value}, v.AllParts IsSymbolic →
    Passes v.spell (v.parts.any isFault)
  | .integer n, _ => passes_word (Numeric.fits_writeInt n.toInt).mem_pattern
  | .double x, _ => passes_double x
  | .fault cause, _ => passes_fault cause
  | .symbol name, h => passes_word (h.self : name.toList ∈ Lexeme.symbol.pattern.matches')
  | .builtin function, _ => passes_builtin function
  | .lambda formals body closure, h => by
      have hbackslash : Passes ['\\'] false :=
        passes_word (Lexeme.isSymbol_iff.1 (by decide : Lexeme.isSymbol ['\\'] = true))
      have hformals : Passes formals.spell false := passes_formals h.self
      have hbody := (passes_spellEach (allParts_lambda.1 h).2).inBrackets .brace
      have hlambda := (hbackslash.space (hformals.space hbody)).inBrackets .round
      simpa [spell, parts, isFault, Bracket.opener, Bracket.closer] using hlambda
  | .sexpr items, h => (passes_spellEach (allParts_sexpr.1 h).2).inBrackets .round
  | .qexpr items, h => (passes_spellEach (allParts_qexpr.1 h).2).inBrackets .brace

/-- A pass over printed values with spaces between them stops at the first fault among their parts.
-/
theorem passes_spellEach : ∀ {vs : List Value}, (∀ v ∈ vs, v.AllParts IsSymbolic) →
    Passes (spaced (spellEach vs)) ((partsAll vs).any isFault)
  | [], _ => passes_nil
  | v :: vs, h => by
      rw [List.forall_mem_cons] at h
      rw [partsAll, List.any_append]
      exact (passes_spell h.1).spaced_cons (passes_spellEach h.2)

end

/-- **A printed fault cannot be read as data.** If there is a fault anywhere in a value, in lists or
in the bodies of lambdas, and the names of all its symbols and parameters match the expression of
symbols, then the reader refuses the printed value at the first word of the sentence of a fault. It
never refuses it for its brackets. -/
theorem printed_fault_is_not_read {v : Value} (hnames : v.AllParts IsSymbolic)
    (hfault : ∃ cause, .fault cause ∈ v.parts) :
    Node.read v.text.toList = .error (.badWord "Error:") := by
  obtain ⟨cause, hcause⟩ := hfault
  have hany : v.parts.any isFault = true := List.any_eq_true.2 ⟨_, hcause, rfl⟩
  have hevent := passes_spell hnames [] [] Token.endsWord_nil
  rw [hany, if_pos rfl, List.append_nil] at hevent
  rw [toList_text]
  exact Node.read_eq_error_of_firstEvent? hevent

/-- A list with brackets, symbols and numbers on both sides of a fault, which is in the body of a
lambda; one of the symbols looks like a number, and one of the numbers is none. -/
def faultyValue : Value :=
  .sexpr [.builtin .head, .lambda ⟨["x"], some "1e5"⟩ [.double .nan, .qexpr [.fault .divZero]] 0,
    .symbol "x"]

/-- A fault inside of brackets is the first event of its text, behind a builtin function, a symbol
that looks like a number and a NaN. -/
theorem read_faultyValue :
    faultyValue.text =
        "(<builtin head> (\\ \x7bx & 1e5\x7d \x7bNaN \x7bError: Division By Zero!\x7d\x7d) x)" ∧
      faultyValue.AllParts IsSymbolic ∧ (∃ cause, .fault cause ∈ faultyValue.parts) ∧
      Node.read faultyValue.text.toList = .error (.badWord "Error:") := by
  have hx : "x".toList ∈ Lexeme.symbol.pattern.matches' := Lexeme.isSymbol_iff.1 (by decide)
  have hrest : "1e5".toList ∈ Lexeme.symbol.pattern.matches' := Lexeme.isSymbol_iff.1 (by decide)
  have hnames : faultyValue.AllParts IsSymbolic := by
    simpa [AllParts, faultyValue, parts, partsAll, IsSymbolic] using And.intro ⟨hx, hrest⟩ hx
  have hfault : ∃ cause, .fault cause ∈ faultyValue.parts :=
    ⟨.divZero, by simp [faultyValue, parts, partsAll]⟩
  exact ⟨by decide +kernel, hnames, hfault, printed_fault_is_not_read hnames hfault⟩

end Value

end QuoteLisp
