import Mathlib.Data.List.TakeWhile
import QuoteLisp.Token

/-!
# The tokens of a text, character by character

`Token.tokenize` looks for the next token behind the separators, and might fail to find one. This
file shows that it never does: a character is a separator, a bracket, the mark of a comment or the
start of a word, so something always stands at the front. `Token.scan` makes that choice character by
character and cannot fail, and `tokenize_eq_ok_scan` shows that it gives the same tokens. The lemmas
on `scan`, one for each kind of character, are what later proofs use.
-/

set_option autoImplicit false

namespace QuoteLisp

/-- A text that starts with a character of another kind, or with none, ends a run of characters
wherever the run would have ended. -/
theorem Text.span_append_right {p : Char → Bool} {rest : List Char}
    (hrest : ∀ c ∈ rest.head?, p c = false) (cs : List Char) :
    (cs ++ rest).takeWhile p = cs.takeWhile p ∧
      (cs ++ rest).dropWhile p = cs.dropWhile p ++ rest := by
  induction cs with
  | nil =>
      cases rest with
      | nil => exact ⟨rfl, rfl⟩
      | cons c cs =>
          have hc := hrest c rfl
          simp [hc]
  | cons c cs ih =>
      by_cases hc : p c = true
      · simp [hc, ih.1, ih.2]
      · simp [hc]

/-- A run of characters of one kind, up to the first that is of another, is what `takeWhile` takes
and `dropWhile` drops. -/
theorem Text.span_append {p : Char → Bool} {run rest : List Char} (hrun : ∀ c ∈ run, p c = true)
    (hrest : ∀ c ∈ rest.head?, p c = false) :
    (run ++ rest).takeWhile p = run ∧ (run ++ rest).dropWhile p = rest := by
  obtain ⟨htake, hdrop⟩ := Text.span_append_right hrest run
  have hall : run.takeWhile p = run := List.takeWhile_eq_self_iff.2 hrun
  have hnone : run.dropWhile p = [] := List.dropWhile_eq_nil_iff.2 hrun
  rw [htake, hdrop, hall, hnone]
  exact ⟨rfl, rfl⟩

/-- What comes after a run of characters of one kind does not start with one of them. -/
theorem Text.eq_false_of_mem_head?_dropWhile {p : Char → Bool} {cs : List Char} {c : Char}
    (h : c ∈ (cs.dropWhile p).head?) : p c = false := by
  have hhead := List.head?_dropWhile_not p cs
  rw [Option.mem_def.1 h] at hhead
  simpa using hhead

namespace Token

/-! ### Kinds of characters -/

/-- A bracket is no separator. -/
theorem isSeparator_eq_false_of_ofBracket? {c : Char} {token : Token}
    (h : ofBracket? c = some token) : Text.isSeparator c = false := by
  unfold ofBracket? at h
  split at h
  · next heq => rw [heq]; decide
  · split at h
    · next heq => rw [heq]; decide
    · split at h
      · next heq => rw [heq]; decide
      · split at h
        · next heq => rw [heq]; decide
        · cases h

/-- An opening bracket is read as such. -/
theorem ofBracket?_opener (bracket : Bracket) :
    ofBracket? bracket.opener = some (.opening bracket) := by
  cases bracket <;> decide

/-- A closing bracket is read as such. -/
theorem ofBracket?_closer (bracket : Bracket) :
    ofBracket? bracket.closer = some (.closing bracket) := by
  cases bracket <;> decide

/-- The characters of words are those that are no separators, no brackets and no comment marks. -/
theorem isWordChar_eq_true_iff {c : Char} :
    isWordChar c = true ↔
      Text.isSeparator c = false ∧ ofBracket? c = none ∧ c ≠ commentMark := by
  simp [isWordChar, and_assoc]

/-- A character that is of no other kind belongs to a word. -/
theorem isWordChar_of_not_isSeparator {c : Char} (hsep : ¬ Text.isSeparator c = true)
    (hbracket : ofBracket? c = none) (hmark : c ≠ commentMark) : isWordChar c = true :=
  isWordChar_eq_true_iff.2 ⟨Bool.eq_false_iff.2 hsep, hbracket, hmark⟩

/-- All characters of a line may stand in a comment. -/
theorem isCommentChar_of_newline_not_mem {text : List Char} (h : '\n' ∉ text) :
    ∀ c ∈ text, isCommentChar c = true := by
  intro c hc
  simp only [isCommentChar, bne_iff_ne]
  rintro rfl
  exact h hc

/-! ### Scanning -/

/-- The tokens of a text in order. -/
def scan : List Char → List Token
  | [] => []
  | c :: cs =>
      if Text.isSeparator c then scan cs
      else
        match ofBracket? c with
        | some token => token :: scan cs
        | none =>
            if c = commentMark then
              .comment (cs.takeWhile isCommentChar) :: scan (cs.dropWhile isCommentChar)
            else .word (c :: cs.takeWhile isWordChar) :: scan (cs.dropWhile isWordChar)
termination_by cs => cs.length
decreasing_by
  all_goals
    simp only [List.length_cons, Nat.lt_succ_iff]
    first
      | exact Nat.le_refl _
      | exact length_dropWhile_le _ _

/-- The empty text has no tokens. -/
@[simp]
theorem scan_nil : scan [] = [] := by
  rw [scan]

/-- A separator is skipped. -/
theorem scan_separator {c : Char} (h : Text.isSeparator c = true) (cs : List Char) :
    scan (c :: cs) = scan cs := by
  rw [scan, if_pos h]

/-- A bracket is a token of its own. -/
theorem scan_bracket {c : Char} {token : Token} (h : ofBracket? c = some token)
    (cs : List Char) : scan (c :: cs) = token :: scan cs := by
  rw [scan, isSeparator_eq_false_of_ofBracket? h, h]
  simp

/-- A comment is a token up to the end of its line. -/
theorem scan_comment (cs : List Char) :
    scan (commentMark :: cs) =
      .comment (cs.takeWhile isCommentChar) :: scan (cs.dropWhile isCommentChar) := by
  have hsep : Text.isSeparator commentMark = false := by decide
  have hbracket : ofBracket? commentMark = none := by decide
  rw [scan, hsep, hbracket]
  simp

/-- A word is a token up to the first character that belongs to none. -/
theorem scan_wordChar {c : Char} (h : isWordChar c = true) (cs : List Char) :
    scan (c :: cs) =
      .word (c :: cs.takeWhile isWordChar) :: scan (cs.dropWhile isWordChar) := by
  obtain ⟨hsep, hbracket, hmark⟩ := isWordChar_eq_true_iff.1 h
  rw [scan, hsep, hbracket]
  simp [hmark]

/-- Separators in front are skipped. -/
theorem scan_dropWhile_isSeparator (cs : List Char) :
    scan (cs.dropWhile Text.isSeparator) = scan cs := by
  induction cs with
  | nil => rfl
  | cons c cs ih =>
      rw [List.dropWhile_cons]
      split
      · next h => rw [ih, scan_separator h]
      · rfl

/-- A text of separators has no tokens. -/
theorem scan_of_all_isSeparator {cs : List Char} (h : cs.all Text.isSeparator = true) :
    scan cs = [] := by
  have hdrop : cs.dropWhile Text.isSeparator = [] := by
    rw [List.dropWhile_eq_nil_iff]
    exact List.all_eq_true.1 h
  rw [← scan_dropWhile_isSeparator, hdrop, scan_nil]

/-! ### Both give the same tokens -/

/-- What stands at the front of a text that does not start with a separator is a token, and the rest
of the tokens come after it. -/
theorem exists_lead?_eq_some {c : Char} (cs : List Char) (h : Text.isSeparator c = false) :
    ∃ text rest token, lead? (c :: cs) = some (text, rest) ∧ ofText text = .ok token ∧
      scan (c :: cs) = token :: scan rest := by
  cases hbracket : ofBracket? c with
  | some token =>
      exact ⟨[c], cs, token, by simp [lead?, hbracket], by simp [ofText, hbracket],
        scan_bracket hbracket cs⟩
  | none =>
      by_cases hmark : c = commentMark
      · subst hmark
        have hlead : lead? (commentMark :: cs) =
            some (commentMark :: cs.takeWhile isCommentChar, cs.dropWhile isCommentChar) := by
          simp [lead?, hbracket]
        exact ⟨_, _, _, hlead, by simp [ofText, hbracket], scan_comment cs⟩
      · have hword : isWordChar c = true := isWordChar_eq_true_iff.2 ⟨h, hbracket, hmark⟩
        have hlead : lead? (c :: cs) =
            some (c :: cs.takeWhile isWordChar, cs.dropWhile isWordChar) := by
          simp [lead?, hbracket, hmark, hword]
        exact ⟨_, _, _, hlead, by simp [ofText, hbracket, hmark], scan_wordChar hword cs⟩

/-- What is not all separators has a next token, with which its tokens start. -/
theorem exists_next?_eq_some {cs : List Char} (h : ¬ cs.all Text.isSeparator = true) :
    ∃ text rest token, next? cs = some (text, rest) ∧ ofText text = .ok token ∧
      scan cs = token :: scan rest := by
  cases hdrop : cs.dropWhile Text.isSeparator with
  | nil =>
      rw [List.dropWhile_eq_nil_iff] at hdrop
      exact absurd (List.all_eq_true.2 hdrop) h
  | cons c rest =>
      have hc : Text.isSeparator c = false :=
        Text.eq_false_of_mem_head?_dropWhile (by rw [hdrop]; rfl)
      obtain ⟨text, rest', token, hlead, htoken, hscan⟩ := exists_lead?_eq_some rest hc
      refine ⟨text, rest'.dropWhile Text.isSeparator, token, ?_, htoken, ?_⟩
      · simp only [next?, hdrop, hlead, Option.map_some]
      · rw [scan_dropWhile_isSeparator, ← hscan, ← hdrop, scan_dropWhile_isSeparator]

/-- Every text has tokens, and they are those of `scan`. -/
theorem tokenize_eq_ok_scan (cs : List Char) : tokenize cs = .ok (scan cs) := by
  fun_induction tokenize cs with
  | case1 cs hall => rw [scan_of_all_isSeparator hall]
  | case2 cs hall hnone =>
      obtain ⟨text, rest, token, hnext, -, -⟩ := exists_next?_eq_some hall
      rw [hnone] at hnext
      cases hnext
  | case3 cs hall text rest hnext failure hfailure =>
      obtain ⟨text', rest', token, hnext', htoken, -⟩ := exists_next?_eq_some hall
      rw [hnext] at hnext'
      cases hnext'
      rw [hfailure] at htoken
      cases htoken
  | case4 cs hall text rest hnext token htoken ih =>
      obtain ⟨text', rest', token', hnext', htoken', hscan⟩ := exists_next?_eq_some hall
      rw [hnext] at hnext'
      cases hnext'
      rw [htoken] at htoken'
      cases htoken'
      rw [ih, hscan]
      rfl

/-! ### Words between other tokens -/

/-- A word that stands before this text ends there: the text is empty or starts with a character that
belongs to no word. -/
def EndsWord (rest : List Char) : Prop :=
  ∀ c ∈ rest.head?, isWordChar c = false

/-- A word ends at the end of the text. -/
theorem endsWord_nil : EndsWord [] := by
  intro c hc
  cases hc

/-- A word ends before a character that belongs to none. -/
theorem endsWord_cons {c : Char} (h : isWordChar c = false) (cs : List Char) :
    EndsWord (c :: cs) := by
  intro c' hc'
  cases hc'
  exact h

/-- A run of word characters is one word as far as it goes. -/
theorem scan_word {text rest : List Char} (hne : text ≠ [])
    (htext : ∀ c ∈ text, isWordChar c = true) (hrest : EndsWord rest) :
    scan (text ++ rest) = .word text :: scan rest := by
  cases text with
  | nil => exact absurd rfl hne
  | cons c cs =>
      have hcs : ∀ c' ∈ cs, isWordChar c' = true := fun c' hc' =>
        htext c' (List.mem_cons_of_mem _ hc')
      obtain ⟨htake, hdrop⟩ := Text.span_append hcs hrest
      rw [List.cons_append, scan_wordChar (htext c List.mem_cons_self), htake, hdrop]

/-! ### Texts one after the other -/

/-- Comments are dropped from tokens one part after the other. -/
theorem significant_append (tokens tokens' : List Token) :
    significant (tokens ++ tokens') = significant tokens ++ significant tokens' :=
  List.filter_append ..

/-- Comments are dropped from tokens one token after the other. -/
theorem significant_cons (token : Token) (tokens : List Token) :
    significant (token :: tokens) = significant [token] ++ significant tokens :=
  significant_append [token] tokens

/-- What stands before a newline has the same tokens whatever comes after it. -/
theorem scan_append_newline (cs rest : List Char) :
    scan (cs ++ '\n' :: rest) = scan cs ++ scan rest := by
  fun_induction scan cs with
  | case1 => exact scan_separator Text.isSeparator_newline rest
  | case2 c cs hsep ih => rw [List.cons_append, scan_separator hsep, ih]
  | case3 c cs hsep token hbracket ih =>
      rw [List.cons_append, scan_bracket hbracket, ih, List.cons_append]
  | case4 cs hsep hbracket ih =>
      have hnewline : ∀ c ∈ ('\n' :: rest).head?, isCommentChar c = false := by
        rintro c ⟨⟩
        rfl
      obtain ⟨htake, hdrop⟩ := Text.span_append_right hnewline cs
      rw [List.cons_append, scan_comment, htake, hdrop, ih, List.cons_append]
  | case5 c cs hsep hbracket hmark ih =>
      have hc := isWordChar_of_not_isSeparator hsep hbracket hmark
      have hnewline : EndsWord ('\n' :: rest) := endsWord_cons (by decide) rest
      obtain ⟨htake, hdrop⟩ := Text.span_append_right hnewline cs
      rw [List.cons_append, scan_wordChar hc, htake, hdrop, ih, List.cons_append]

end Token

end QuoteLisp
