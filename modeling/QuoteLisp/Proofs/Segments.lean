import QuoteLisp.Proofs.Scanning

/-!
# Nothing of a text is lost

A text is a gap, then a token, then a gap, and so on up to a last gap. A gap holds blanks and commas
only; a token is a bracket, a comment that runs up to the end of its line, or a word that runs as far
as its characters go. `Token.Factors` says this of a text, its gaps and its tokens, with no word on how
they are found.

Every text is of this form, with the tokens that `Token.tokenize` gives (`exists_factors`), and in one
way only (`Factors.unique`): a token starts with a character that is in no gap, so the gap before it is
known, and what stands at the front of the rest is what `Token.lead?` splits off (`Stands.lead?_eq`).
-/

set_option autoImplicit false

namespace QuoteLisp.Token

/-! ### Gaps and plain characters -/

/-- A gap between tokens is made of blanks and commas. -/
def IsGap (gap : List Char) : Prop :=
  ∀ c ∈ gap, Text.isBlank c = true ∨ c = ','

/-- A plain character is neither a blank nor a comma, a semicolon or a bracket. -/
def IsPlain (c : Char) : Prop :=
  Text.isBlank c = false ∧ c ≠ ',' ∧ c ≠ ';' ∧
    ∀ bracket : Bracket, c ≠ bracket.opener ∧ c ≠ bracket.closer

/-- A gap is made of separators. -/
theorem isGap_iff {gap : List Char} : IsGap gap ↔ ∀ c ∈ gap, Text.isSeparator c = true := by
  simp [IsGap, Text.isSeparator]

/-- Only the characters of brackets stand for brackets. -/
theorem ofBracket?_eq_some {c : Char} {token : Token} (h : ofBracket? c = some token) :
    ∃ bracket : Bracket, (c = bracket.opener ∧ token = .opening bracket) ∨
      (c = bracket.closer ∧ token = .closing bracket) := by
  unfold ofBracket? at h
  split at h
  · next hc => exact ⟨.round, .inl ⟨hc, (Option.some.inj h).symm⟩⟩
  · split at h
    · next hc => exact ⟨.brace, .inl ⟨hc, (Option.some.inj h).symm⟩⟩
    · split at h
      · next hc => exact ⟨.round, .inr ⟨hc, (Option.some.inj h).symm⟩⟩
      · split at h
        · next hc => exact ⟨.brace, .inr ⟨hc, (Option.some.inj h).symm⟩⟩
        · cases h

/-- A character stands for no bracket exactly when it is none. -/
theorem ofBracket?_eq_none_iff {c : Char} :
    ofBracket? c = none ↔ ∀ bracket : Bracket, c ≠ bracket.opener ∧ c ≠ bracket.closer := by
  constructor
  · intro h bracket
    refine ⟨?_, ?_⟩
    · rintro rfl
      rw [ofBracket?_opener] at h
      cases h
    · rintro rfl
      rw [ofBracket?_closer] at h
      cases h
  · intro h
    cases hc : ofBracket? c with
    | none => rfl
    | some token =>
        obtain ⟨bracket, ⟨heq, -⟩ | ⟨heq, -⟩⟩ := ofBracket?_eq_some hc
        · exact absurd heq (h bracket).1
        · exact absurd heq (h bracket).2

/-- The plain characters are those of words. -/
theorem isPlain_iff {c : Char} : IsPlain c ↔ isWordChar c = true := by
  rw [isWordChar_eq_true_iff, ofBracket?_eq_none_iff]
  simp only [IsPlain, Text.isSeparator, Bool.or_eq_false_iff, beq_eq_false_iff_ne, commentMark]
  constructor
  · rintro ⟨hblank, hcomma, hmark, hbracket⟩
    exact ⟨⟨hblank, hcomma⟩, hbracket, hmark⟩
  · rintro ⟨⟨hblank, hcomma⟩, hbracket, hmark⟩
    exact ⟨hblank, hcomma, hmark, hbracket⟩

/-! ### Factors of a text -/

/-- Where the text `rest` comes after them, some characters stand for a token: they are of its form,
and they do not go on. -/
inductive Stands (rest : List Char) : List Char → Token → Prop where
  | opening (bracket : Bracket) : Stands rest [bracket.opener] (.opening bracket)
  | closing (bracket : Bracket) : Stands rest [bracket.closer] (.closing bracket)
  | comment {run : List Char} : '\n' ∉ run → (∀ c ∈ rest.head?, c = '\n') →
      Stands rest (';' :: run) (.comment run)
  | word {run : List Char} : run ≠ [] → (∀ c ∈ run, IsPlain c) →
      (∀ c ∈ rest.head?, ¬ IsPlain c) → Stands rest run (.word run)

/-- The characters of a token and the gap after it. -/
@[ext]
structure Segment where
  text : List Char
  gap : List Char

/-- The text that is made of some segments. -/
def joined (segments : List Segment) : List Char :=
  segments.flatMap fun segment => segment.text ++ segment.gap

/-- Segments stand for tokens, one for one, each where the rest of its text comes after it. -/
inductive StandFor : List Segment → List Token → Prop where
  | nil : StandFor [] []
  | cons {segment : Segment} {segments : List Segment} {token : Token} {tokens : List Token} :
      Stands (segment.gap ++ joined segments) segment.text token → IsGap segment.gap →
      StandFor segments tokens → StandFor (segment :: segments) (token :: tokens)

/-- A text is a gap and then segments that stand for some tokens. -/
structure Factors (text gap : List Char) (segments : List Segment) (tokens : List Token) :
    Prop where
  text_eq : text = gap ++ joined segments
  isGap : IsGap gap
  standFor : StandFor segments tokens

/-- The first segment stands in front of the others. -/
@[simp]
theorem joined_cons (segment : Segment) (segments : List Segment) :
    joined (segment :: segments) = segment.text ++ (segment.gap ++ joined segments) := by
  simp [joined]

variable {text rest gap : List Char} {token : Token} {segments : List Segment}
  {tokens : List Token}

/-! ### Every text has factors -/

/-- A separator in front makes the first gap longer. -/
theorem Factors.cons_gap {c : Char} (hc : Text.isSeparator c = true)
    (h : Factors text gap segments tokens) : Factors (c :: text) (c :: gap) segments tokens where
  text_eq := by rw [h.text_eq, List.cons_append]
  isGap := by
    rw [isGap_iff, List.forall_mem_cons]
    exact ⟨hc, isGap_iff.1 h.isGap⟩
  standFor := h.standFor

/-- A token in front is a segment with the gap that the text started with. -/
theorem Factors.cons_token (htoken : Stands rest text token)
    (h : Factors rest gap segments tokens) :
    Factors (text ++ rest) [] (⟨text, gap⟩ :: segments) (token :: tokens) where
  text_eq := by rw [List.nil_append, joined_cons, ← h.text_eq]
  isGap := isGap_iff.2 (by simp)
  standFor := .cons (by rwa [← h.text_eq]) h.isGap h.standFor

/-- A bracket stands for its token, whatever comes after it. -/
theorem stands_of_ofBracket? {c : Char} (h : ofBracket? c = some token) :
    Stands rest [c] token := by
  obtain ⟨bracket, ⟨rfl, rfl⟩ | ⟨rfl, rfl⟩⟩ := ofBracket?_eq_some h
  · exact .opening bracket
  · exact .closing bracket

/-- A comment stands for its token up to the end of the line. -/
theorem stands_comment (cs : List Char) :
    Stands (cs.dropWhile isCommentChar) (commentMark :: cs.takeWhile isCommentChar)
      (.comment (cs.takeWhile isCommentChar)) := by
  refine .comment ?_ ?_
  · intro hmem
    have hnewline : isCommentChar '\n' = true := List.mem_takeWhile_imp hmem
    cases hnewline
  · intro c hc
    simpa [isCommentChar] using Text.eq_false_of_mem_head?_dropWhile hc

/-- A word stands for its token up to the first character that belongs to none. -/
theorem stands_word {c : Char} (hc : isWordChar c = true) (cs : List Char) :
    Stands (cs.dropWhile isWordChar) (c :: cs.takeWhile isWordChar)
      (.word (c :: cs.takeWhile isWordChar)) := by
  refine .word (List.cons_ne_nil _ _) ?_ ?_
  · rw [List.forall_mem_cons]
    exact ⟨isPlain_iff.2 hc, fun c' hc' => isPlain_iff.2 (List.mem_takeWhile_imp hc')⟩
  · intro c' hc'
    rw [isPlain_iff, Text.eq_false_of_mem_head?_dropWhile hc']
    decide

/-- A text is made of gaps and of the tokens that a scan finds. -/
theorem exists_factors (text : List Char) :
    ∃ gap segments, Factors text gap segments (scan text) := by
  fun_induction scan text with
  | case1 => exact ⟨[], [], rfl, isGap_iff.2 (by simp), .nil⟩
  | case2 c cs hsep ih =>
      obtain ⟨gap, segments, h⟩ := ih
      exact ⟨_, _, h.cons_gap hsep⟩
  | case3 c cs hsep token hbracket ih =>
      obtain ⟨gap, segments, h⟩ := ih
      exact ⟨_, _, h.cons_token (stands_of_ofBracket? hbracket)⟩
  | case4 cs hsep hbracket ih =>
      obtain ⟨gap, segments, h⟩ := ih
      have hfactors := h.cons_token (stands_comment cs)
      rw [List.cons_append, List.takeWhile_append_dropWhile] at hfactors
      exact ⟨_, _, hfactors⟩
  | case5 c cs hsep hbracket hmark ih =>
      obtain ⟨gap, segments, h⟩ := ih
      have hc := isWordChar_of_not_isSeparator hsep hbracket hmark
      have hfactors := h.cons_token (stands_word hc cs)
      rw [List.cons_append, List.takeWhile_append_dropWhile] at hfactors
      exact ⟨_, _, hfactors⟩

/-! ### The factors are unique -/

/-- What stands for a token is what is split off the front of the text. -/
theorem Stands.lead?_eq (h : Stands rest text token) : lead? (text ++ rest) = some (text, rest) := by
  cases h with
  | opening bracket => simp [lead?, ofBracket?_opener]
  | closing bracket => simp [lead?, ofBracket?_closer]
  | @comment run hrun hrest =>
      have hrest' : ∀ c ∈ rest.head?, isCommentChar c = false := by
        intro c hc
        rw [hrest c hc]
        rfl
      obtain ⟨htake, hdrop⟩ := Text.span_append (isCommentChar_of_newline_not_mem hrun) hrest'
      have hbracket : ofBracket? commentMark = none := by decide
      show lead? (commentMark :: (run ++ rest)) = some (commentMark :: run, rest)
      simp [lead?, hbracket, htake, hdrop]
  | word hne hplain hrest =>
      cases text with
      | nil => exact absurd rfl hne
      | cons c cs =>
          rw [List.forall_mem_cons] at hplain
          have hc := isPlain_iff.1 hplain.1
          have hcs : ∀ c' ∈ cs, isWordChar c' = true := fun c' hc' => isPlain_iff.1 (hplain.2 c' hc')
          have hrest' : ∀ c' ∈ rest.head?, isWordChar c' = false := by
            intro c' hc'
            rw [← Bool.not_eq_true, ← isPlain_iff]
            exact hrest c' hc'
          obtain ⟨htake, hdrop⟩ := Text.span_append hcs hrest'
          obtain ⟨-, hbracket, hmark⟩ := isWordChar_eq_true_iff.1 hc
          simp [lead?, hbracket, hmark, hc, htake, hdrop]

/-- What stands for a token is the text of that token. -/
theorem Stands.ofText_eq (h : Stands rest text token) : ofText text = .ok token := by
  cases h with
  | opening bracket => simp [ofText, ofBracket?_opener]
  | closing bracket => simp [ofText, ofBracket?_closer]
  | comment => rfl
  | word hne hplain =>
      cases text with
      | nil => exact absurd rfl hne
      | cons c cs =>
          have hc := isPlain_iff.1 (hplain c List.mem_cons_self)
          obtain ⟨-, hbracket, hmark⟩ := isWordChar_eq_true_iff.1 hc
          simp [ofText, hbracket, hmark]

/-- The front of a text stands for one token at most. -/
theorem Stands.unique {text' rest' : List Char} {token' : Token} (h : Stands rest text token)
    (h' : Stands rest' text' token') (heq : text' ++ rest' = text ++ rest) :
    text' = text ∧ rest' = rest ∧ token' = token := by
  have hlead := h'.lead?_eq
  rw [heq, h.lead?_eq] at hlead
  cases hlead
  have htoken := h'.ofText_eq
  rw [h.ofText_eq] at htoken
  cases htoken
  exact ⟨rfl, rfl, rfl⟩

/-- What stands for a token starts with a character that is in no gap. -/
theorem Stands.exists_eq_cons (h : Stands rest text token) :
    ∃ c cs, text = c :: cs ∧ Text.isSeparator c = false := by
  cases h with
  | opening bracket =>
      exact ⟨_, _, rfl, isSeparator_eq_false_of_ofBracket? (ofBracket?_opener bracket)⟩
  | closing bracket =>
      exact ⟨_, _, rfl, isSeparator_eq_false_of_ofBracket? (ofBracket?_closer bracket)⟩
  | comment => exact ⟨_, _, rfl, by decide⟩
  | word hne hplain =>
      obtain ⟨c, cs, rfl⟩ := List.exists_cons_of_ne_nil hne
      have hc := isPlain_iff.1 (hplain c List.mem_cons_self)
      exact ⟨c, cs, rfl, (isWordChar_eq_true_iff.1 hc).1⟩

/-- A token has at least one character. -/
theorem Stands.joined_cons_ne_nil {segment : Segment} (h : Stands rest segment.text token)
    (segments : List Segment) : joined (segment :: segments) ≠ [] := by
  obtain ⟨c, cs, htext, -⟩ := h.exists_eq_cons
  rw [joined_cons, htext]
  exact List.cons_ne_nil _ _

/-- No gap stands in front of the first token. -/
theorem StandFor.isSeparator_head? (h : StandFor segments tokens) :
    ∀ c ∈ (joined segments).head?, Text.isSeparator c = false := by
  cases h with
  | nil =>
      intro c hc
      cases hc
  | cons hstands =>
      obtain ⟨c, cs, htext, hc⟩ := hstands.exists_eq_cons
      rw [joined_cons, htext, List.cons_append, List.head?_cons]
      rintro c' ⟨⟩
      exact hc

/-- The gap at the front of a text is all of its separators there. -/
theorem Factors.span_eq (h : Factors text gap segments tokens) :
    text.takeWhile Text.isSeparator = gap ∧
      text.dropWhile Text.isSeparator = joined segments := by
  rw [h.text_eq]
  exact Text.span_append (isGap_iff.1 h.isGap) h.standFor.isSeparator_head?

/-- A text is made of tokens and gaps in one way. -/
theorem StandFor.unique {segments' : List Segment} {tokens' : List Token}
    (h : StandFor segments tokens) (h' : StandFor segments' tokens')
    (hjoined : joined segments' = joined segments) : segments' = segments ∧ tokens' = tokens := by
  induction h generalizing segments' tokens' with
  | nil =>
      cases h' with
      | nil => exact ⟨rfl, rfl⟩
      | cons hstands => exact absurd hjoined (hstands.joined_cons_ne_nil _)
  | @cons segment segments token tokens hstands hgap hrest ih =>
      cases h' with
      | nil => exact absurd hjoined.symm (hstands.joined_cons_ne_nil _)
      | @cons segment' segments' token' tokens' hstands' hgap' hrest' =>
          -- the same token stands at the front, and the same gap comes after it
          rw [joined_cons, joined_cons] at hjoined
          obtain ⟨htext, hafter, rfl⟩ := hstands.unique hstands' hjoined
          have hspan := Factors.span_eq ⟨rfl, hgap, hrest⟩
          have hspan' := Factors.span_eq ⟨hafter.symm, hgap', hrest'⟩
          obtain ⟨rfl, rfl⟩ := ih hrest' (hspan'.2.symm.trans hspan.2)
          have hsegment : segment' = segment := Segment.ext htext (hspan'.1.symm.trans hspan.1)
          exact ⟨by rw [hsegment], rfl⟩

/-- A text has factors in one way only. -/
theorem Factors.unique {gap' : List Char} {segments' : List Segment} {tokens' : List Token}
    (h : Factors text gap segments tokens) (h' : Factors text gap' segments' tokens') :
    gap' = gap ∧ segments' = segments ∧ tokens' = tokens := by
  obtain ⟨htake, hdrop⟩ := h.span_eq
  obtain ⟨htake', hdrop'⟩ := h'.span_eq
  have hjoined : joined segments' = joined segments := hdrop'.symm.trans hdrop
  exact ⟨htake'.symm.trans htake, h.standFor.unique h'.standFor hjoined⟩

/-- **Tokenizing a text fails on none and loses nothing.** Every text has tokens. It is made of gaps
and of characters that stand for the tokens in order, one for one: a bracket, a comment up to the end
of its line, or a word that goes on as far as it can. It is so in one way only. -/
theorem tokenize_factors_text (text : List Char) :
    ∃ gap segments tokens, tokenize text = .ok tokens ∧ Factors text gap segments tokens ∧
      ∀ {gap' segments' tokens'}, Factors text gap' segments' tokens' →
        gap' = gap ∧ segments' = segments ∧ tokens' = tokens := by
  obtain ⟨gap, segments, hfactors⟩ := exists_factors text
  exact ⟨gap, segments, scan text, tokenize_eq_ok_scan text, hfactors, hfactors.unique⟩

end QuoteLisp.Token
