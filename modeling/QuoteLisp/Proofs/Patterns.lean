import Mathlib
import QuoteLisp.Lexeme
import QuoteLisp.Proofs.Scanning

/-!
# Patterns of words

The classes of words are told by three regular expressions: one for integer literals, one for double
literals and one for symbols. `Lexeme` decides them by walking along a word. This file states the
expressions as they are and shows that the walks decide them, so that a word has the first class whose
expression it matches (`classify?_eq_some_iff`), and no class when it matches none
(`classify?_eq_none_iff`).
-/

set_option autoImplicit false

namespace QuoteLisp

namespace Lexeme

open RegularExpression
open Numeric (isDigit)

/-! ### The expressions -/

/-- The characters from one to another, ends included. -/
def charsFrom (first last : Char) : List Char :=
  (List.range' first.toNat (last.toNat + 1 - first.toNat)).map Char.ofNat

/-- One of these characters. -/
def oneOf (cs : List Char) : RegularExpression Char :=
  cs.foldr (fun c r => char c + r) 0

/-- An expression or nothing. -/
def optional (r : RegularExpression Char) : RegularExpression Char :=
  1 + r

/-- An expression one or more times. -/
def many (r : RegularExpression Char) : RegularExpression Char :=
  r * star r

/-- A decimal digit. -/
def digit : RegularExpression Char :=
  oneOf (charsFrom '0' '9')

/-- An exponent: a mark, an optional sign and digits. -/
def exponent : RegularExpression Char :=
  oneOf ['e', 'E'] * (optional (oneOf ['+', '-']) * many digit)

/-- Digits with a point before, after or between them, or without one if there is an exponent. -/
def unsignedDouble : RegularExpression Char :=
  (many digit * (char '.' * star digit) + char '.' * many digit) * optional exponent +
    many digit * exponent

/-- The characters of symbols. -/
def symbolChars : List Char :=
  charsFrom 'a' 'z' ++ charsFrom 'A' 'Z' ++ charsFrom '0' '9' ++ symbolMarks

/-- The expression of a class. -/
def pattern : Lexeme → RegularExpression Char
  | long => optional (char '-') * many digit
  | double => optional (char '-') * unsignedDouble
  | symbol => many (oneOf symbolChars)

/-- A word fits a class when it matches the expression of the class, and none of those that are tried
before it. -/
def Fits (cs : List Char) : Lexeme → Prop
  | long => cs ∈ long.pattern.matches'
  | double => cs ∉ long.pattern.matches' ∧ cs ∈ double.pattern.matches'
  | symbol =>
      cs ∉ long.pattern.matches' ∧ cs ∉ double.pattern.matches' ∧ cs ∈ symbol.pattern.matches'

/-! ### Expressions for single characters -/

/-- The characters from one to another are those between them. -/
theorem mem_charsFrom {first last c : Char} (hlast : last.toNat < 0xD800) :
    c ∈ charsFrom first last ↔ first ≤ c ∧ c ≤ last := by
  have hle : ∀ a b : Char, a ≤ b ↔ a.toNat ≤ b.toNat := fun a b => Iff.rfl
  simp only [charsFrom, List.mem_map, List.mem_range'_1, hle]
  constructor
  · rintro ⟨n, ⟨hfirst, hn⟩, rfl⟩
    have hvalid : n.isValidChar := .inl (by omega)
    have hnat : (Char.ofNat n).toNat = n := by
      simp [Char.ofNat, hvalid, Char.toNat, Char.ofNatAux]
    rw [hnat]
    omega
  · rintro ⟨hfirst, hlast'⟩
    exact ⟨c.toNat, by omega, Char.ofNat_toNat c⟩

/-- The characters from 0 to 9 are the digits. -/
theorem mem_charsFrom_zero_nine {c : Char} : c ∈ charsFrom '0' '9' ↔ isDigit c = true := by
  rw [mem_charsFrom (by decide)]
  simp [isDigit]

/-- One of some characters is matched by a text of that character alone. -/
theorem mem_oneOf {cs x : List Char} : x ∈ (oneOf cs).matches' ↔ ∃ c ∈ cs, x = [c] := by
  induction cs with
  | nil => simp [oneOf, Language.notMem_zero]
  | cons c cs ih =>
      have hcons : (oneOf (c :: cs)).matches' = {[c]} + (oneOf cs).matches' := rfl
      rw [hcons, Language.mem_add, ih]
      simp only [List.mem_cons, exists_eq_or_imp]
      rfl

/-- Any number of some characters is matched by every text of these. -/
theorem mem_star_oneOf {cs x : List Char} :
    x ∈ (star (oneOf cs)).matches' ↔ ∀ c ∈ x, c ∈ cs := by
  rw [matches'_star, Language.mem_kstar]
  constructor
  · rintro ⟨words, rfl, hwords⟩ c hc
    obtain ⟨word, hword, hcword⟩ := List.mem_flatten.1 hc
    obtain ⟨c', hc', rfl⟩ := mem_oneOf.1 (hwords word hword)
    rw [List.mem_singleton.1 hcword]
    exact hc'
  · intro hx
    have hflatten : x = (x.map fun c => [c]).flatten := by
      rw [← List.flatMap_def, List.flatMap_singleton']
    refine ⟨x.map fun c => [c], hflatten, ?_⟩
    intro word hword
    obtain ⟨c, hc, rfl⟩ := List.mem_map.1 hword
    exact mem_oneOf.2 ⟨c, hx c hc, rfl⟩

/-- One or more of some characters are matched by every non-empty text of these. -/
theorem mem_many_oneOf {cs x : List Char} :
    x ∈ (many (oneOf cs)).matches' ↔ x ≠ [] ∧ ∀ c ∈ x, c ∈ cs := by
  rw [many, matches'_mul, Language.mem_mul]
  constructor
  · rintro ⟨a, ha, b, hb, rfl⟩
    obtain ⟨c, hc, rfl⟩ := mem_oneOf.1 ha
    refine ⟨by simp, ?_⟩
    intro c' hc'
    rcases List.mem_cons.1 hc' with rfl | hc'
    · exact hc
    · exact mem_star_oneOf.1 hb c' hc'
  · rintro ⟨hne, hx⟩
    cases x with
    | nil => exact absurd rfl hne
    | cons c x =>
        refine ⟨[c], mem_oneOf.2 ⟨c, hx c List.mem_cons_self, rfl⟩, x, ?_, rfl⟩
        exact mem_star_oneOf.2 fun c' hc' => hx c' (List.mem_cons_of_mem _ hc')

/-- An optional expression is matched by the empty text as well. -/
theorem mem_optional {r : RegularExpression Char} {x : List Char} :
    x ∈ (optional r).matches' ↔ x = [] ∨ x ∈ r.matches' := by
  rw [optional, matches'_add, Language.mem_add, matches'_epsilon, Language.mem_one]

/-- A character in front of an expression stands in front of what matches it. -/
theorem mem_char_mul {c : Char} {r : RegularExpression Char} {x : List Char} :
    x ∈ (char c * r).matches' ↔ ∃ y ∈ r.matches', x = c :: y := by
  rw [matches'_mul, Language.mem_mul]
  constructor
  · rintro ⟨a, ha, b, hb, rfl⟩
    cases ha
    exact ⟨b, hb, rfl⟩
  · rintro ⟨y, hy, rfl⟩
    exact ⟨[c], rfl, y, hy, rfl⟩

/-! ### Digits and signs -/

/-- A run of digits is not empty and has digits only. -/
theorem isDigits_iff {cs : List Char} : isDigits cs = true ↔ cs ≠ [] ∧ ∀ c ∈ cs, isDigit c = true := by
  simp [isDigits]

/-- Any number of digits is matched by every text of digits. -/
theorem mem_star_digit {cs : List Char} :
    cs ∈ (star digit).matches' ↔ ∀ c ∈ cs, isDigit c = true := by
  simp only [digit, mem_star_oneOf, mem_charsFrom_zero_nine]

/-- One or more digits are matched by the runs of digits. -/
theorem mem_many_digit {cs : List Char} : cs ∈ (many digit).matches' ↔ isDigits cs = true := by
  simp only [digit, mem_many_oneOf, mem_charsFrom_zero_nine, isDigits_iff]

/-- A word with an optional minus sign matches what its rest matches, if that has no sign of its
own. -/
theorem mem_optional_minus_mul {r : RegularExpression Char}
    (hr : ∀ ds, '-' :: ds ∉ r.matches') {cs : List Char} :
    cs ∈ (optional (char '-') * r).matches' ↔ dropMinus cs ∈ r.matches' := by
  rw [matches'_mul, Language.mem_mul]
  constructor
  · rintro ⟨a, ha, b, hb, rfl⟩
    rcases mem_optional.1 ha with rfl | ha
    · have hdrop : dropMinus ([] ++ b) = b := by
        unfold dropMinus
        split
        · next ds heq =>
            rw [List.nil_append] at heq
            rw [heq] at hb
            exact absurd hb (hr ds)
        · rfl
      rw [hdrop]
      exact hb
    · cases ha
      exact hb
  · intro h
    unfold dropMinus at h
    split at h
    · next ds => exact ⟨['-'], mem_optional.2 (.inr rfl), ds, h, rfl⟩
    · exact ⟨[], mem_optional.2 (.inl rfl), cs, h, rfl⟩

/-- The walk for integer literals decides their expression. -/
theorem isLong_iff {cs : List Char} : isLong cs = true ↔ cs ∈ long.pattern.matches' := by
  have hminus : ∀ ds, '-' :: ds ∉ (many digit).matches' := by
    intro ds hds
    have hdigit := (isDigits_iff.1 (mem_many_digit.1 hds)).2 '-' List.mem_cons_self
    simp [isDigit] at hdigit
  rw [pattern, mem_optional_minus_mul hminus, mem_many_digit, isLong]

/-! ### Exponents and points -/

/-- The walk for digits with a sign decides their expression. -/
theorem isSignedDigits_iff {cs : List Char} :
    isSignedDigits cs = true ↔
      cs ∈ (optional (oneOf ['+', '-']) * many digit).matches' := by
  rw [matches'_mul, Language.mem_mul]
  constructor
  · intro h
    unfold isSignedDigits at h
    split at h
    · next ds =>
        exact ⟨['+'], mem_optional.2 (.inr (mem_oneOf.2 ⟨'+', by simp, rfl⟩)), ds,
          mem_many_digit.2 h, rfl⟩
    · next ds =>
        exact ⟨['-'], mem_optional.2 (.inr (mem_oneOf.2 ⟨'-', by simp, rfl⟩)), ds,
          mem_many_digit.2 h, rfl⟩
    · exact ⟨[], mem_optional.2 (.inl rfl), cs, mem_many_digit.2 h, rfl⟩
  · rintro ⟨a, ha, b, hb, rfl⟩
    rw [mem_many_digit] at hb
    rcases mem_optional.1 ha with rfl | ha
    · rw [List.nil_append]
      -- digits have no sign in front, so they are taken as they are
      cases b with
      | nil => exact hb
      | cons c ds =>
          have hc := (isDigits_iff.1 hb).2 c List.mem_cons_self
          unfold isSignedDigits
          split
          · next heq =>
              cases heq
              simp [isDigit] at hc
          · next heq =>
              cases heq
              simp [isDigit] at hc
          · exact hb
    · obtain ⟨c, hc, rfl⟩ := mem_oneOf.1 ha
      rcases List.mem_cons.1 hc with rfl | hc
      · exact hb
      · rw [List.mem_singleton.1 hc]
        exact hb

/-- The walk for exponents decides their expression. -/
theorem isExponent_iff {cs : List Char} : isExponent cs = true ↔ cs ∈ exponent.matches' := by
  rw [exponent, matches'_mul, Language.mem_mul]
  cases cs with
  | nil =>
      simp only [isExponent, Bool.false_eq_true, false_iff, not_exists, not_and]
      intro a ha b _ hab
      obtain ⟨c, -, rfl⟩ := mem_oneOf.1 ha
      cases hab
  | cons c cs =>
      simp only [isExponent, Bool.and_eq_true, Bool.or_eq_true, beq_iff_eq, isSignedDigits_iff]
      constructor
      · rintro ⟨hc, hcs⟩
        exact ⟨[c], mem_oneOf.2 ⟨c, by simpa using hc, rfl⟩, cs, hcs, rfl⟩
      · rintro ⟨a, ha, b, hb, hab⟩
        obtain ⟨c', hc', rfl⟩ := mem_oneOf.1 ha
        cases hab
        exact ⟨by simpa using hc', hb⟩

/-- An exponent or the end comes after all digits. -/
theorem isDigit_eq_false_of_mem_optional_exponent {cs : List Char}
    (h : cs ∈ (optional exponent).matches') : ∀ c ∈ cs.head?, isDigit c = false := by
  rcases mem_optional.1 h with rfl | h
  · simp
  · intro c hc
    cases cs with
    | nil => cases hc
    | cons c' cs =>
        cases hc
        have hexp := isExponent_iff.2 h
        simp only [isExponent, Bool.and_eq_true, Bool.or_eq_true, beq_iff_eq] at hexp
        rcases hexp.1 with rfl | rfl <;> decide

/-- The end or an exponent is what matches an optional exponent. -/
theorem isEmpty_or_isExponent_iff {cs : List Char} :
    (cs.isEmpty || isExponent cs) = true ↔ cs ∈ (optional exponent).matches' := by
  rw [Bool.or_eq_true, List.isEmpty_iff, isExponent_iff, mem_optional]

/-- Digits with a point and an optional exponent are a double literal without a sign. -/
theorem isUnsignedDouble_point {whole fraction rest : List Char}
    (hwhole : ∀ c ∈ whole, isDigit c = true) (hfraction : ∀ c ∈ fraction, isDigit c = true)
    (hne : whole ≠ [] ∨ fraction ≠ []) (hrest : rest ∈ (optional exponent).matches') :
    isUnsignedDouble (whole ++ '.' :: (fraction ++ rest)) = true := by
  have hpoint : ∀ c ∈ ('.' :: (fraction ++ rest)).head?, isDigit c = false := by simp [isDigit]
  obtain ⟨htake, hdrop⟩ := Text.span_append hwhole hpoint
  obtain ⟨htake', hdrop'⟩ := Text.span_append hfraction
    (isDigit_eq_false_of_mem_optional_exponent hrest)
  have hend := isEmpty_or_isExponent_iff.2 hrest
  simp only [isUnsignedDouble, htake, hdrop, htake', hdrop', hend, Bool.and_true, Bool.or_eq_true,
    Bool.not_eq_true', List.isEmpty_eq_false_iff]
  exact hne

/-- Digits with an exponent are a double literal without a sign. -/
theorem isUnsignedDouble_exponent {whole rest : List Char} (hwhole : isDigits whole = true)
    (hrest : rest ∈ exponent.matches') : isUnsignedDouble (whole ++ rest) = true := by
  obtain ⟨hne, hdigits⟩ := isDigits_iff.1 hwhole
  obtain ⟨htake, hdrop⟩ := Text.span_append hdigits
    (isDigit_eq_false_of_mem_optional_exponent (mem_optional.2 (.inr hrest)))
  have hexp := isExponent_iff.2 hrest
  unfold isUnsignedDouble
  rw [hdrop, htake]
  split
  · next ds =>
      simp [isExponent] at hexp
  · simp [hne, hexp]

/-- The walk for double literals without a sign decides their expression. -/
theorem isUnsignedDouble_iff {cs : List Char} :
    isUnsignedDouble cs = true ↔ cs ∈ unsignedDouble.matches' := by
  rw [unsignedDouble, matches'_add, Language.mem_add, matches'_mul, Language.mem_mul,
    matches'_mul, Language.mem_mul]
  constructor
  · intro h
    have hsplit : cs = cs.takeWhile isDigit ++ cs.dropWhile isDigit :=
      List.takeWhile_append_dropWhile.symm
    have hwhole : ∀ c ∈ cs.takeWhile isDigit, isDigit c = true := fun c hc =>
      List.mem_takeWhile_imp hc
    unfold isUnsignedDouble at h
    split at h
    · next ds hds =>
        have hfraction : ∀ c ∈ ds.takeWhile isDigit, isDigit c = true := fun c hc =>
          List.mem_takeWhile_imp hc
        simp only [Bool.and_eq_true, isEmpty_or_isExponent_iff] at h
        obtain ⟨hne, hrest⟩ := h
        refine .inl ⟨cs.takeWhile isDigit ++ '.' :: ds.takeWhile isDigit, ?_,
          ds.dropWhile isDigit, hrest, ?_⟩
        · rw [matches'_add, Language.mem_add]
          by_cases hempty : cs.takeWhile isDigit = []
          · right
            rw [hempty, List.nil_append, mem_char_mul]
            refine ⟨_, mem_many_digit.2 (isDigits_iff.2 ⟨?_, hfraction⟩), rfl⟩
            simpa [hempty] using hne
          · left
            rw [matches'_mul, Language.mem_mul]
            exact ⟨_, mem_many_digit.2 (isDigits_iff.2 ⟨hempty, hwhole⟩), _,
              mem_char_mul.2 ⟨_, mem_star_digit.2 hfraction, rfl⟩, rfl⟩
        · rw [List.append_assoc, List.cons_append, List.takeWhile_append_dropWhile, ← hds]
          exact hsplit.symm
    · simp only [Bool.and_eq_true, Bool.not_eq_true', List.isEmpty_eq_false_iff,
        isExponent_iff] at h
      exact .inr ⟨_, mem_many_digit.2 (isDigits_iff.2 ⟨h.1, hwhole⟩), _, h.2, hsplit.symm⟩
  · rintro (⟨a, ha, rest, hrest, rfl⟩ | ⟨whole, hwhole, rest, hrest, rfl⟩)
    · rw [matches'_add, Language.mem_add, matches'_mul, Language.mem_mul] at ha
      rcases ha with ⟨whole, hwhole, point, hpoint, rfl⟩ | hpoint
      · obtain ⟨hne, hdigits⟩ := isDigits_iff.1 (mem_many_digit.1 hwhole)
        obtain ⟨fraction, hfraction, rfl⟩ := mem_char_mul.1 hpoint
        rw [List.append_assoc, List.cons_append]
        exact isUnsignedDouble_point hdigits (mem_star_digit.1 hfraction) (.inl hne) hrest
      · obtain ⟨fraction, hfraction, rfl⟩ := mem_char_mul.1 hpoint
        obtain ⟨hne, hdigits⟩ := isDigits_iff.1 (mem_many_digit.1 hfraction)
        have hwhole : ∀ c ∈ ([] : List Char), isDigit c = true := by simp
        have hpoint := isUnsignedDouble_point hwhole hdigits (.inr hne) hrest
        simpa using hpoint
    · exact isUnsignedDouble_exponent (mem_many_digit.1 hwhole) hrest

/-- The walk for double literals decides their expression. -/
theorem isDouble_iff {cs : List Char} : isDouble cs = true ↔ cs ∈ double.pattern.matches' := by
  have hminus : ∀ ds, '-' :: ds ∉ unsignedDouble.matches' := by
    intro ds hds
    have hdouble := isUnsignedDouble_iff.2 hds
    simp [isUnsignedDouble, isDigit] at hdouble
  rw [pattern, mem_optional_minus_mul hminus, ← isUnsignedDouble_iff, isDouble]

/-! ### Symbols and classes -/

/-- The test for characters of symbols tells the listed ones. -/
theorem isSymbolChar_iff {c : Char} : isSymbolChar c = true ↔ c ∈ symbolChars := by
  simp only [symbolChars, List.mem_append, isSymbolChar, Bool.or_eq_true, List.contains_iff_mem]
  rw [mem_charsFrom (by decide), mem_charsFrom (by decide), mem_charsFrom (by decide)]
  simp only [Char.isAlphanum, Char.isAlpha, Char.isUpper, Char.isLower, Char.isDigit,
    Bool.or_eq_true, Bool.and_eq_true, decide_eq_true_eq, ge_iff_le, Char.le_def]
  grind

/-- The walk for symbols decides their expression. -/
theorem isSymbol_iff {cs : List Char} : isSymbol cs = true ↔ cs ∈ symbol.pattern.matches' := by
  simp only [pattern, mem_many_oneOf, ← isSymbolChar_iff]
  simp [isSymbol]

/-- A word has the first class whose expression it matches. -/
theorem classify?_eq_some_iff {cs : List Char} {lexeme : Lexeme} :
    classify? cs = some lexeme ↔ lexeme.Fits cs := by
  unfold classify?
  split
  · next hlong => cases lexeme <;> simp [Fits, ← isLong_iff, hlong]
  · next hlong =>
      split
      · next hdouble => cases lexeme <;> simp [Fits, ← isLong_iff, ← isDouble_iff, hlong, hdouble]
      · next hdouble =>
          cases lexeme <;>
            simp [Fits, ← isLong_iff, ← isDouble_iff, ← isSymbol_iff, hlong, hdouble]

/-- A word has no class when it matches no expression. -/
theorem classify?_eq_none_iff {cs : List Char} :
    classify? cs = none ↔ ∀ lexeme : Lexeme, cs ∉ lexeme.pattern.matches' := by
  have hall : (∀ lexeme : Lexeme, cs ∉ lexeme.pattern.matches') ↔
      ¬ isLong cs = true ∧ ¬ isDouble cs = true ∧ ¬ isSymbol cs = true := by
    rw [isLong_iff, isDouble_iff, isSymbol_iff]
    constructor
    · intro h
      exact ⟨h .long, h .double, h .symbol⟩
    · rintro ⟨hlong, hdouble, hsymbol⟩ lexeme
      cases lexeme with
      | long => exact hlong
      | double => exact hdouble
      | symbol => exact hsymbol
  rw [hall]
  unfold classify?
  grind

/-! ### Words that fit are words -/

/-- The characters that an expression names. -/
def letters : RegularExpression Char → List Char
  | .zero => []
  | .epsilon => []
  | .char c => [c]
  | .plus r s => letters r ++ letters s
  | .comp r s => letters r ++ letters s
  | .star r => letters r

/-- What matches an expression has only characters that the expression names. -/
theorem mem_letters {r : RegularExpression Char} {x : List Char} (hx : x ∈ r.matches') :
    ∀ c ∈ x, c ∈ letters r := by
  induction r generalizing x with
  | zero => exact absurd hx (Language.notMem_zero x)
  | epsilon =>
      rw [(Language.mem_one x).1 hx]
      simp
  | char c =>
      cases hx
      simp [letters]
  | plus r s ihr ihs =>
      intro c hc
      rcases hx with hx | hx
      · exact List.mem_append_left _ (ihr hx c hc)
      · exact List.mem_append_right _ (ihs hx c hc)
  | comp r s ihr ihs =>
      obtain ⟨a, ha, b, hb, rfl⟩ := Language.mem_mul.1 hx
      intro c hc
      rcases List.mem_append.1 hc with hc | hc
      · exact List.mem_append_left _ (ihr ha c hc)
      · exact List.mem_append_right _ (ihs hb c hc)
  | star r ih =>
      obtain ⟨words, rfl, hwords⟩ := Language.mem_kstar.1 hx
      intro c hc
      obtain ⟨word, hword, hcword⟩ := List.mem_flatten.1 hc
      exact ih (hwords word hword) c hcword

/-- The characters that the expression of a class names belong to words. -/
theorem isWordChar_of_mem_letters (lexeme : Lexeme) :
    ∀ c ∈ letters lexeme.pattern, Token.isWordChar c = true := by
  have hall : (letters lexeme.pattern).all Token.isWordChar = true := by
    cases lexeme <;> decide +kernel
  exact List.all_eq_true.1 hall

/-- What fits a class matches its expression. -/
theorem Fits.mem_pattern {cs : List Char} {lexeme : Lexeme} (h : lexeme.Fits cs) :
    cs ∈ lexeme.pattern.matches' := by
  cases lexeme with
  | long => exact h
  | double => exact h.2
  | symbol => exact h.2.2

/-- What matches the expression of a class has only characters of words. -/
theorem isWordChar_of_mem_pattern {cs : List Char} {lexeme : Lexeme}
    (h : cs ∈ lexeme.pattern.matches') : ∀ c ∈ cs, Token.isWordChar c = true := fun c hc =>
  isWordChar_of_mem_letters lexeme c (mem_letters h c hc)

/-- The empty text matches no expression of a class. -/
theorem ne_nil_of_mem_pattern {cs : List Char} {lexeme : Lexeme}
    (h : cs ∈ lexeme.pattern.matches') : cs ≠ [] := by
  rintro rfl
  have hnone : classify? [] = none := rfl
  exact classify?_eq_none_iff.1 hnone lexeme h

/-- What fits a class has only characters of words. -/
theorem Fits.isWordChar {cs : List Char} {lexeme : Lexeme} (h : lexeme.Fits cs) :
    ∀ c ∈ cs, Token.isWordChar c = true :=
  isWordChar_of_mem_pattern h.mem_pattern

/-- The empty text fits no class. -/
theorem Fits.ne_nil {cs : List Char} {lexeme : Lexeme} (h : lexeme.Fits cs) : cs ≠ [] :=
  ne_nil_of_mem_pattern h.mem_pattern

end Lexeme

end QuoteLisp
