import QuoteLisp.Node

/-!
# Reading a text into a tree

`Node.read` builds the tree of a text from its tokens by recursive descent: one expression is a word
or a group, and a group is read one expression after the other up to its closing bracket. Each step
hands on the tokens it has left over. A text that is no sequence of complete groups and known words
is refused, with the first thing wrong with it.
-/

set_option autoImplicit false

namespace QuoteLisp

/-- Why a text cannot be read. -/
inductive ReadError where
  /-- The text has no tokens. -/
  | untokenized (failure : Token.Failure)
  /-- Nothing but separators and comments. -/
  | empty
  /-- A group is still open at the end. -/
  | unclosed
  /-- A bracket closes nothing. -/
  | unexpectedClose (bracket : Bracket)
  /-- A bracket closes a group of the other kind. -/
  | mismatchedClose (expected got : Bracket)
  /-- A word is neither a literal nor a symbol. -/
  | badWord (text : String)
  deriving DecidableEq, Repr

namespace ReadError

/-- A character between single quotes. -/
def quoted (c : Char) : String :=
  "'" ++ String.singleton c ++ "'"

/-- The sentence that tells an error. -/
def message : ReadError → String
  | untokenized failure => "tokenizer failed: " ++ failure.message
  | empty => "empty input"
  | unclosed => "unclosed list"
  | unexpectedClose bracket => "unexpected " ++ quoted bracket.closer
  | mismatchedClose expected got =>
      "expected " ++ quoted expected.closer ++ " but found " ++ quoted got.closer
  | badWord text => "unrecognised token '" ++ text ++ "'"

end ReadError

namespace Node

/-- What was read off the front of some tokens: a node, and the tokens left over, which are fewer. -/
structure Reading (tokens : List Token) where
  node : Node
  rest : List Token
  shorter : rest.length < tokens.length

/-- The leaf of a word. -/
def readWord (text : List Char) : Except ReadError Node :=
  match Lexeme.classify? text with
  | some lexeme => .ok (leaf lexeme text)
  | none => .error (.badWord (String.ofList text))

mutual

/-- Reads one expression. -/
def readForm : (tokens : List Token) → Except ReadError (Reading tokens)
  | [] => .error .unclosed
  | .comment _ :: _ => .error .unclosed
  | .closing bracket :: _ => .error (.unexpectedClose bracket)
  | .word text :: tokens =>
      (readWord text).map fun node => ⟨node, tokens, Nat.lt_succ_self _⟩
  | .opening bracket :: tokens =>
      (readGroup bracket [] tokens).map fun reading =>
        ⟨reading.node, reading.rest, Nat.lt_succ_of_lt reading.shorter⟩
termination_by tokens => (tokens.length, 0)

/-- Reads the rest of a group in these brackets, where `elders` are its nodes so far, the last one
first. -/
def readGroup (bracket : Bracket) (elders : List Node) :
    (tokens : List Token) → Except ReadError (Reading tokens)
  | [] => .error .unclosed
  | .closing closer :: tokens =>
      if closer = bracket then
        .ok ⟨group (.ofBracket bracket) elders.reverse, tokens, Nat.lt_succ_self _⟩
      else .error (.mismatchedClose bracket closer)
  | token :: tokens =>
      match readForm (token :: tokens) with
      | .error cause => .error cause
      | .ok form =>
          (readGroup bracket (form.node :: elders) form.rest).map fun reading =>
            ⟨reading.node, reading.rest, Nat.lt_trans reading.shorter form.shorter⟩
termination_by tokens => (tokens.length, 1)
decreasing_by
  · exact Prod.Lex.right _ Nat.zero_lt_one
  · exact Prod.Lex.left _ _ form.shorter

end

/-- Where a group does not end, an expression that cannot be read stops it. -/
theorem readGroup_of_error {bracket : Bracket} {elders : List Node} {token : Token}
    {tokens : List Token} (hclosing : ∀ closer, token ≠ .closing closer) {cause : ReadError}
    (hform : readForm (token :: tokens) = .error cause) :
    readGroup bracket elders (token :: tokens) = .error cause := by
  rw [readGroup]
  · rw [hform]
  · exact hclosing

/-- Where a group does not end, it goes on after the next expression. -/
theorem readGroup_of_ok {bracket : Bracket} {elders : List Node} {token : Token}
    {tokens : List Token} (hclosing : ∀ closer, token ≠ .closing closer)
    {form : Reading (token :: tokens)} (hform : readForm (token :: tokens) = .ok form) :
    readGroup bracket elders (token :: tokens) =
      (readGroup bracket (form.node :: elders) form.rest).map fun reading =>
        ⟨reading.node, reading.rest, Nat.lt_trans reading.shorter form.shorter⟩ := by
  rw [readGroup]
  · rw [hform]
  · exact hclosing

/-- Reads expressions up to the end, where `elders` are the nodes so far, the last one first. -/
def readForms (elders : List Node) : List Token → Except ReadError (List Node)
  | [] => .ok elders.reverse
  | token :: tokens =>
      match readForm (token :: tokens) with
      | .error cause => .error cause
      | .ok form => readForms (form.node :: elders) form.rest
termination_by tokens => tokens.length
decreasing_by exact form.shorter

/-- The tree of a sequence of tokens without comments; it has at least one node below its root. -/
def ofTokens (tokens : List Token) : Except ReadError Node :=
  if tokens.isEmpty then .error .empty
  else (readForms [] tokens).map (group .root)

/-- The tree of a text. -/
def read (text : List Char) : Except ReadError Node :=
  match Token.tokenize text with
  | .error failure => .error (.untokenized failure)
  | .ok tokens => ofTokens (Token.significant tokens)

end Node

end QuoteLisp
