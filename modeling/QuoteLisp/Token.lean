import QuoteLisp.Text.Blank

/-!
# Tokens

A text is a sequence of brackets, comments and words, kept apart by separators. A comment runs from
its semicolon up to the next newline; a word runs as far as its characters go. `Token.tokenize` takes
one token after the other off the front of a text, until only separators are left.
-/

set_option autoImplicit false

namespace QuoteLisp

/-- Round brackets hold programs, braces hold data. -/
inductive Bracket where
  | round
  | brace
  deriving DecidableEq, Repr

namespace Bracket

/-- The character that opens a group. -/
def opener : Bracket → Char
  | round => '('
  | brace => '\x7b'

/-- The character that closes a group. -/
def closer : Bracket → Char
  | round => ')'
  | brace => '\x7d'

end Bracket

/-- A token; a comment is held without its semicolon. -/
inductive Token where
  | opening (bracket : Bracket)
  | closing (bracket : Bracket)
  | comment (text : List Char)
  | word (text : List Char)
  deriving DecidableEq, Repr

namespace Token

/-- The token that a bracket character stands for. -/
def ofBracket? (c : Char) : Option Token :=
  if c = Bracket.round.opener then some (.opening .round)
  else if c = Bracket.brace.opener then some (.opening .brace)
  else if c = Bracket.round.closer then some (.closing .round)
  else if c = Bracket.brace.closer then some (.closing .brace)
  else none

/-- The character with which a comment starts. -/
def commentMark : Char := ';'

/-- A comment goes on until a newline. -/
def isCommentChar (c : Char) : Bool :=
  c != '\n'

/-- A word goes on until a separator, a bracket or a comment. -/
def isWordChar (c : Char) : Bool :=
  !Text.isSeparator c && (ofBracket? c).isNone && c != commentMark

/-- Why a text has no tokens. -/
inductive Failure where
  /-- There is no character to tell a token by. -/
  | noCharacter
  /-- No token stands at the front of what is left of the text. -/
  | noToken (rest : String)
  deriving DecidableEq, Repr

/-- The sentence that tells a failure. -/
def Failure.message : Failure → String
  | noCharacter => "no characters to parse token from"
  | noToken rest => "could not tokenize '" ++ rest ++ "'"

/-- Splits the text of a token off the front: a bracket, a comment or a word. -/
def lead? : List Char → Option (List Char × List Char)
  | [] => none
  | c :: cs =>
      if (ofBracket? c).isSome then some ([c], cs)
      else if c = commentMark then
        some (c :: cs.takeWhile isCommentChar, cs.dropWhile isCommentChar)
      else if isWordChar c then some (c :: cs.takeWhile isWordChar, cs.dropWhile isWordChar)
      else none

/-- Splits the text of a token off the front, without the separators on both sides of it. -/
def next? (cs : List Char) : Option (List Char × List Char) :=
  (lead? (cs.dropWhile Text.isSeparator)).map fun (text, rest) =>
    (text, rest.dropWhile Text.isSeparator)

/-- The token of a text that was split off: the first character tells. -/
def ofText : List Char → Except Failure Token
  | [] => .error .noCharacter
  | c :: cs =>
      match ofBracket? c with
      | some token => .ok token
      | none => if c = commentMark then .ok (.comment cs) else .ok (.word (c :: cs))

/-- Dropping characters from the front never makes a text longer. -/
theorem length_dropWhile_le (p : Char → Bool) (cs : List Char) :
    (cs.dropWhile p).length ≤ cs.length :=
  (List.dropWhile_sublist p).length_le

/-- What is split off is not empty. -/
theorem length_lt_of_lead? {cs text rest : List Char} (h : lead? cs = some (text, rest)) :
    rest.length < cs.length := by
  cases cs with
  | nil => cases h
  | cons c cs =>
      simp only [lead?] at h
      simp only [List.length_cons, Nat.lt_succ_iff]
      split at h
      · cases h
        exact Nat.le_refl _
      · split at h
        · cases h
          exact length_dropWhile_le _ _
        · split at h
          · cases h
            exact length_dropWhile_le _ _
          · cases h

/-- Taking a token leaves less text. -/
theorem length_lt_of_next? {cs text rest : List Char} (h : next? cs = some (text, rest)) :
    rest.length < cs.length := by
  obtain ⟨⟨text', rest'⟩, hlead, heq⟩ := Option.map_eq_some_iff.1 h
  cases heq
  have hlt := length_lt_of_lead? hlead
  have hle := length_dropWhile_le Text.isSeparator rest'
  have hle' := length_dropWhile_le Text.isSeparator cs
  omega

/-- The tokens of a text in order. -/
def tokenize (cs : List Char) : Except Failure (List Token) :=
  if cs.all Text.isSeparator then .ok []
  else
    match _h : next? cs with
    | none => .error (.noToken (String.ofList cs))
    | some (text, rest) =>
        match ofText text with
        | .error failure => .error failure
        | .ok token => (tokenize rest).map (token :: ·)
termination_by cs.length
decreasing_by exact length_lt_of_next? ‹_›

/-- Whether a token is a comment. -/
def isComment : Token → Bool
  | .comment _ => true
  | _ => false

/-- The tokens that mean something: all but the comments. -/
def significant (tokens : List Token) : List Token :=
  tokens.filter fun token => !token.isComment

end Token

end QuoteLisp
