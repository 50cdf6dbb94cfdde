import QuoteLisp.Proofs.Grammar

/-!
# The errors of the reader

The reader notices what is wrong with a text at different depths of its recursion: a word where it is
read, a closing bracket where an expression should start or where a group should end, a missing one
where the tokens end. Still the error it gives is the one that a single pass from left to right meets
first. `firstEvent?` is that pass: it keeps the brackets that are open on a stack and builds nothing.
The reader hands the tokens that are left over from one part to the next, so what carries the proof is
that a pass over the tokens of an expression is the same as a pass that starts after them, unless the
expression cannot be read, and then it stops with the reader's error (`firstEvent?_reading`).
-/

set_option autoImplicit false

namespace QuoteLisp

namespace Node

/-- Whether a word matches none of the expressions of words is decided by its class. -/
instance decidableMatchesNone (text : List Char) :
    Decidable (∀ lexeme : Lexeme, text ∉ lexeme.pattern.matches') :=
  decidable_of_iff (Lexeme.classify? text = none) Lexeme.classify?_eq_none_iff

/-- The first thing wrong with some tokens that stand inside the brackets of a stack, the innermost
first: a word of no class, a closing bracket with nothing to close or with something else to close, or
the end with something left to close. -/
def firstEvent? (stack : List Bracket) : List Token → Option ReadError
  | [] => if stack = [] then none else some .unclosed
  | .comment _ :: tokens => firstEvent? stack tokens
  | .word text :: tokens =>
      if ∀ lexeme : Lexeme, text ∉ lexeme.pattern.matches' then
        some (.badWord (String.ofList text))
      else firstEvent? stack tokens
  | .opening bracket :: tokens => firstEvent? (bracket :: stack) tokens
  | .closing bracket :: tokens =>
      match stack with
      | [] => some (.unexpectedClose bracket)
      | top :: rest =>
          if bracket = top then firstEvent? rest tokens else some (.mismatchedClose top bracket)

/-- What a pass meets after an expression: the error with which it could not be read, or what comes
in the tokens left over. -/
def eventAfter {tokens : List Token} (stack : List Bracket) :
    Except ReadError (Reading tokens) → Option ReadError
  | .error cause => some cause
  | .ok reading => firstEvent? stack reading.rest

/-- Tokens without a comment among them. -/
def NoComment (tokens : List Token) : Prop :=
  ∀ token ∈ tokens, token.isComment = false

/-- Where no token is a comment, none after the first is. -/
theorem NoComment.of_cons {token : Token} {tokens : List Token} (h : NoComment (token :: tokens)) :
    NoComment tokens := fun token' htoken' => h token' (List.mem_cons_of_mem _ htoken')

/-- The tokens left over from tokens without a comment have none. -/
theorem NoComment.rest {tokens : List Token} {reading : Reading tokens} (h : NoComment tokens)
    (hform : readForm tokens = .ok reading) : NoComment reading.rest := by
  obtain ⟨-, htokens⟩ := readForm_sound hform
  intro token htoken
  apply h
  rw [htokens]
  exact List.mem_append_right _ htoken

/-! ### A pass over one expression -/

/-- The first event at a word is the error of the word, if it has one, or comes after it. -/
theorem firstEvent?_word (stack : List Bracket) (text : List Char) (tokens : List Token) :
    firstEvent? stack (.word text :: tokens) =
      match readWord text with
      | .error cause => some cause
      | .ok _ => firstEvent? stack tokens := by
  rw [firstEvent?]
  unfold readWord
  cases hclass : Lexeme.classify? text with
  | none => rw [if_pos (Lexeme.classify?_eq_none_iff.1 hclass)]
  | some lexeme =>
      have hsome : ¬ ∀ lexeme : Lexeme, text ∉ lexeme.pattern.matches' := by
        rw [← Lexeme.classify?_eq_none_iff, hclass]
        simp
      rw [if_neg hsome]

/-- The one mutual induction. A pass over an expression comes to its end or to the reader's error; it
may start with a closing bracket only where nothing is open. A pass over the rest of a group also
leaves the group. -/
theorem firstEvent?_reading :
    (∀ tokens, NoComment tokens → tokens ≠ [] →
      ∀ stack, (∀ closer, tokens.head? = some (.closing closer) → stack = []) →
        firstEvent? stack tokens = eventAfter stack (readForm tokens)) ∧
    (∀ bracket elders tokens, NoComment tokens →
      ∀ stack, firstEvent? (bracket :: stack) tokens =
        eventAfter stack (readGroup bracket elders tokens)) := by
  -- Cases 1 to 5 are those of an expression, cases 6 to 10 those of the rest of a group. The stack
  -- varies in both, since a group is entered with one bracket more.
  apply readForm.mutual_induct
  case case1 =>
    intro _ hne
    exact absurd rfl hne
  case case2 =>
    intro text tokens hcomment
    cases hcomment (.comment text) List.mem_cons_self
  case case3 =>
    intro bracket tokens _ _ stack hstack
    rw [hstack bracket rfl, readForm]
    rfl
  case case4 =>
    intro text tokens _ _ stack _
    rw [firstEvent?_word, readForm]
    cases readWord text <;> rfl
  case case5 =>
    intro bracket tokens ih hcomment _ stack _
    have hgroup := ih hcomment.of_cons stack
    rw [firstEvent?, hgroup, readForm]
    cases readGroup bracket [] tokens <;> rfl
  case case6 =>
    intro bracket elders _ stack
    rw [firstEvent?, if_neg (by simp), readGroup]
    rfl
  case case7 =>
    intro elders closer tokens _ stack
    rw [firstEvent?, if_pos rfl, readGroup, if_pos rfl]
    rfl
  case case8 =>
    intro bracket elders closer tokens hne _ stack
    rw [firstEvent?, if_neg hne, readGroup, if_neg hne]
    rfl
  case case9 =>
    intro bracket elders token tokens hclosing cause hform ih hcomment stack
    have hhead : ∀ closer, (token :: tokens).head? = some (.closing closer) →
        bracket :: stack = [] := fun closer h => absurd (Option.some.inj h) (hclosing closer)
    rw [ih hcomment (by simp) (bracket :: stack) hhead, hform, readGroup_of_error hclosing hform]
    rfl
  case case10 =>
    intro bracket elders token tokens hclosing form hform ih ih' hcomment stack
    have hhead : ∀ closer, (token :: tokens).head? = some (.closing closer) →
        bracket :: stack = [] := fun closer h => absurd (Option.some.inj h) (hclosing closer)
    rw [ih hcomment (by simp) (bracket :: stack) hhead, hform, readGroup_of_ok hclosing hform]
    have hgroup := ih' (hcomment.rest hform) stack
    rw [eventAfter, hgroup]
    cases readGroup bracket (form.node :: elders) form.rest <;> rfl

/-! ### A pass over a text -/

/-- What a pass meets is an error of brackets or words. -/
theorem firstEvent?_real {stack : List Bracket} {tokens : List Token} :
    firstEvent? stack tokens ≠ some .empty ∧
      ∀ failure, firstEvent? stack tokens ≠ some (.untokenized failure) := by
  fun_induction firstEvent? stack tokens <;> simp_all

/-- The first event outside all brackets is the error that reading the forms ends with. -/
theorem firstEvent?_readForms (elders : List Node) {tokens : List Token}
    (hcomment : NoComment tokens) :
    firstEvent? [] tokens =
      match readForms elders tokens with
      | .error cause => some cause
      | .ok _ => none := by
  fun_induction readForms elders tokens with
  | case1 elders => rfl
  | case2 elders token tokens cause hform =>
      rw [firstEvent?_reading.1 _ hcomment (by simp) [] (fun _ _ => rfl), hform]
      rfl
  | case3 elders token tokens form hform ih =>
      rw [firstEvent?_reading.1 _ hcomment (by simp) [] (fun _ _ => rfl), hform]
      exact ih (hcomment.rest hform)

/-- The significant tokens of a text are no comments. -/
theorem noComment_significant (tokens : List Token) : NoComment (Token.significant tokens) := by
  intro token htoken
  simpa using (List.mem_filter.1 htoken).2

/-- A pass does not look at comments. -/
theorem firstEvent?_significant (stack : List Bracket) (tokens : List Token) :
    firstEvent? stack (Token.significant tokens) = firstEvent? stack tokens := by
  induction tokens generalizing stack with
  | nil => rfl
  | cons token tokens ih =>
      cases token with
      | comment text => exact ih stack
      | opening bracket => exact ih (bracket :: stack)
      | word text =>
          show firstEvent? stack (.word text :: Token.significant tokens) = _
          rw [firstEvent?, firstEvent?, ih]
      | closing bracket =>
          show firstEvent? stack (.closing bracket :: Token.significant tokens) = _
          cases stack with
          | nil => rfl
          | cons top rest => rw [firstEvent?, firstEvent?, ih]

/-- **The reader's error is the first event of a pass over the tokens.** Every text has tokens. The
reader finds it empty exactly when none of them is left once the comments are gone. Otherwise it gives
an error exactly when that is the first event of a single pass over the others with a stack of open
brackets, and it reads the text exactly when there is no event. The tokenizer is never to blame. -/
theorem read_error_is_first_event (text : List Char) :
    ∃ tokens, Token.tokenize text = .ok tokens ∧
      (read text = .error .empty ↔ Token.significant tokens = []) ∧
      (Token.significant tokens ≠ [] →
        (∀ cause, read text = .error cause ↔
          firstEvent? [] (Token.significant tokens) = some cause) ∧
        ((∃ tree, read text = .ok tree) ↔ firstEvent? [] (Token.significant tokens) = none)) ∧
      ∀ failure, read text ≠ .error (.untokenized failure) := by
  refine ⟨Token.scan text, Token.tokenize_eq_ok_scan text, ?_⟩
  have hread : read text = ofTokens (Token.significant (Token.scan text)) := by
    rw [read, Token.tokenize_eq_ok_scan]
  have hcomment := noComment_significant (Token.scan text)
  rw [hread]
  generalize Token.significant (Token.scan text) = tokens at hcomment
  by_cases hempty : tokens = []
  · subst hempty
    simp [ofTokens]
  · have hne : ¬ tokens.isEmpty = true := by simpa using hempty
    have hevent := firstEvent?_readForms [] hcomment
    have hreal := @firstEvent?_real [] tokens
    rw [ofTokens, if_neg hne]
    cases hforms : readForms [] tokens with
    | error cause =>
        rw [hforms] at hevent
        simp_all [Except.map]
    | ok nodes =>
        rw [hforms] at hevent
        simp_all [Except.map]

/-- Two things are wrong with this text: the first is the word, the next the closing bracket. -/
theorem read_two_errors :
    ∃ tokens, Token.tokenize "(x a.b\x7d ; )".toList = .ok tokens ∧
      tokens = [.opening .round, .word ['x'], .word ['a', '.', 'b'], .closing .brace,
        .comment [' ', ')']] ∧
      Token.significant tokens ≠ [] ∧
      read "(x a.b\x7d ; )".toList = .error (.badWord "a.b") := by
  obtain ⟨tokens, htokens, -, hevent, -⟩ := read_error_is_first_event "(x a.b\x7d ; )".toList
  have hscan : Token.tokenize "(x a.b\x7d ; )".toList =
      .ok [.opening .round, .word ['x'], .word ['a', '.', 'b'], .closing .brace,
        .comment [' ', ')']] := by cbv
  obtain rfl := Except.ok.inj (htokens.symm.trans hscan)
  have hne : Token.significant [.opening .round, .word ['x'], .word ['a', '.', 'b'],
      .closing .brace, .comment [' ', ')']] ≠ [] := by decide
  exact ⟨_, hscan, rfl, hne, ((hevent hne).1 _).2 (by decide)⟩

end Node

end QuoteLisp
