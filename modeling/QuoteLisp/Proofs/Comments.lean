import QuoteLisp.Proofs.Programs

/-!
# Newlines cut a text, and comments do not matter

A newline ends whatever stands before it, so a text may be cut there: its tokens are those of the part
before and then those of the part after (`Token.scan_append_newline`).

Within a line, some tails are not noticed by the reader wherever they stand (`Token.IsSilent`). Behind
a word they do not go on with it, behind the start of a comment they only make it longer, and
everywhere else they have no tokens but comments (`significant_scan_append_of_isSilent`). A comment is
such a tail, whatever it says.
-/

set_option autoImplicit false

namespace QuoteLisp

namespace Token

/-- A tail that is not noticed: it ends a word, it ends no comment, and it has no tokens but
comments. -/
structure IsSilent (tail : List Char) : Prop where
  endsWord : EndsWord tail
  newline_not_mem : '\n' ∉ tail
  significant_scan : significant (scan tail) = []

/-- From its semicolon on, a line is one comment. -/
theorem scan_commentMark {text : List Char} (h : '\n' ∉ text) :
    scan (commentMark :: text) = [.comment text] := by
  have hall := isCommentChar_of_newline_not_mem h
  have htake : text.takeWhile isCommentChar = text := List.takeWhile_eq_self_iff.2 hall
  have hdrop : text.dropWhile isCommentChar = [] := List.dropWhile_eq_nil_iff.2 hall
  rw [scan_comment, htake, hdrop, scan_nil]

/-- A comment up to the end of its line is silent. -/
theorem isSilent_comment {text : List Char} (h : '\n' ∉ text) :
    IsSilent (commentMark :: text) where
  endsWord := endsWord_cons (by decide) text
  newline_not_mem := by simpa [commentMark] using h
  significant_scan := by
    rw [scan_commentMark h]
    rfl

/-- A silent tail leaves the tokens of a text as they are, comments aside. -/
theorem significant_scan_append_of_isSilent {tail : List Char} (h : IsSilent tail)
    (cs : List Char) : significant (scan (cs ++ tail)) = significant (scan cs) := by
  fun_induction scan cs with
  | case1 => exact h.significant_scan
  | case2 c cs hsep ih => rw [List.cons_append, scan_separator hsep, ih]
  | case3 c cs hsep token hbracket ih =>
      rw [List.cons_append, scan_bracket hbracket, significant_cons, ih, ← significant_cons]
  | case4 cs hsep hbracket ih =>
      -- the comment ends where it did, or the whole tail belongs to it
      have hrest : significant (scan ((cs ++ tail).dropWhile isCommentChar)) =
          significant (scan (cs.dropWhile isCommentChar)) := by
        have htail : tail.dropWhile isCommentChar = [] :=
          List.dropWhile_eq_nil_iff.2 (isCommentChar_of_newline_not_mem h.newline_not_mem)
        rw [List.dropWhile_append, htail]
        split
        · next hempty => rw [List.isEmpty_iff.1 hempty]
        · exact ih
      rw [List.cons_append, scan_comment]
      exact hrest
  | case5 c cs hsep hbracket hmark ih =>
      have hc := isWordChar_of_not_isSeparator hsep hbracket hmark
      obtain ⟨htake, hdrop⟩ := Text.span_append_right h.endsWord cs
      rw [List.cons_append, scan_wordChar hc, htake, hdrop, significant_cons, ih,
        ← significant_cons]

end Token

/-- The reader does not notice a silent tail. -/
theorem Node.read_append_of_isSilent {tail : List Char} (h : Token.IsSilent tail)
    (text : List Char) : read (text ++ tail) = read text := by
  rw [read_eq_ofTokens, read_eq_ofTokens, Token.significant_scan_append_of_isSilent h]

/-- The reader does not notice a silent tail of a line that others follow. -/
theorem Node.read_append_newline_of_isSilent {tail : List Char} (h : Token.IsSilent tail)
    (text rest : List Char) : read (text ++ tail ++ '\n' :: rest) = read (text ++ '\n' :: rest) := by
  rw [read_eq_ofTokens, read_eq_ofTokens, Token.scan_append_newline, Token.scan_append_newline,
    Token.significant_append, Token.significant_append,
    Token.significant_scan_append_of_isSilent h]

/-- **A newline is a clean cut, and comments do not matter.** The tokens of two texts with a newline
between them are those of the first and then those of the second. A comment behind any text, whatever
it says, changes nothing of what is read, whether it ends at a newline or at the end of the text. -/
theorem newline_cuts_and_comments_vanish (text rest : List Char) :
    (∃ tokens tokens', Token.tokenize text = .ok tokens ∧ Token.tokenize rest = .ok tokens' ∧
      Token.tokenize (text ++ ['\n'] ++ rest) = .ok (tokens ++ tokens')) ∧
    ∀ {comment : List Char}, '\n' ∉ comment →
      Node.read (text ++ [';'] ++ comment ++ ['\n'] ++ rest) = Node.read (text ++ ['\n'] ++ rest) ∧
      Node.read (text ++ [';'] ++ comment) = Node.read text := by
  refine ⟨⟨Token.scan text, Token.scan rest, ?_⟩, ?_⟩
  · have hcut := Token.scan_append_newline text rest
    refine ⟨Token.tokenize_eq_ok_scan text, Token.tokenize_eq_ok_scan rest, ?_⟩
    rw [Token.tokenize_eq_ok_scan, List.append_assoc, List.singleton_append, hcut]
  · intro comment hcomment
    have hsilent := Token.isSilent_comment hcomment
    refine ⟨?_, ?_⟩
    · simpa [Token.commentMark] using Node.read_append_newline_of_isSilent hsilent text rest
    · simpa [Token.commentMark] using Node.read_append_of_isSilent hsilent text

/-- A comment right behind a word vanishes at the end of its line, whatever brackets and quotes it
has; without the end of the line it hides the bracket that is missing. -/
theorem comment_behind_word_vanishes :
    '\n' ∉ ")\x7b;\"".toList ∧
      Node.read "(+ 1 2;)\x7b;\"\n3)".toList = Node.read "(+ 1 2\n3)".toList ∧
      Node.read "(+ 1 2;)\x7b;\"".toList = .error .unclosed := by
  have hcomment : '\n' ∉ ")\x7b;\"".toList := by decide
  have hunclosed : Node.read "(+ 1 2".toList = .error .unclosed := by cbv
  obtain ⟨-, hvanish⟩ := newline_cuts_and_comments_vanish "(+ 1 2".toList "3)".toList
  obtain ⟨hline, hend⟩ := hvanish hcomment
  exact ⟨hcomment, hline, hend.trans hunclosed⟩

end QuoteLisp
