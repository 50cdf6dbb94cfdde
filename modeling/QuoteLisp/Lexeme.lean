import QuoteLisp.Numeric.Numeral

/-!
# Classes of words

A word is an integer literal, a double literal or a symbol, tried in this order; a word of no class
cannot be read.
-/

set_option autoImplicit false

namespace QuoteLisp

open Numeric (isDigit)

/-- The classes of words. -/
inductive Lexeme where
  | long
  | double
  | symbol
  deriving DecidableEq, Repr

namespace Lexeme

/-- A non-empty run of digits. -/
def isDigits (cs : List Char) : Bool :=
  !cs.isEmpty && cs.all isDigit

/-- A word without its minus sign, if it has one. -/
def dropMinus : List Char → List Char
  | '-' :: cs => cs
  | cs => cs

/-- A run of digits with an optional sign. -/
def isSignedDigits : List Char → Bool
  | '+' :: cs => isDigits cs
  | '-' :: cs => isDigits cs
  | cs => isDigits cs

/-- An exponent: a mark and then digits with an optional sign. -/
def isExponent : List Char → Bool
  | c :: cs => (c == 'e' || c == 'E') && isSignedDigits cs
  | [] => false

/-- An integer literal: digits with an optional minus sign. -/
def isLong (cs : List Char) : Bool :=
  isDigits (dropMinus cs)

/-- A double literal without its sign: digits that have a point, with a digit on one side of it, or an
exponent, or both. -/
def isUnsignedDouble (cs : List Char) : Bool :=
  let whole := cs.takeWhile isDigit
  match cs.dropWhile isDigit with
  | '.' :: ds =>
      let rest := ds.dropWhile isDigit
      (!whole.isEmpty || !(ds.takeWhile isDigit).isEmpty) && (rest.isEmpty || isExponent rest)
  | rest => !whole.isEmpty && isExponent rest

/-- A double literal: an unsigned one with an optional minus sign. -/
def isDouble (cs : List Char) : Bool :=
  isUnsignedDouble (dropMinus cs)

/-- The characters of symbols besides letters and digits. -/
def symbolMarks : List Char :=
  ['_', '+', '-', '*', '/', '\\', '=', '<', '>', '!', '&', '%', '^', '?']

/-- The characters of symbols: ASCII letters and digits, and some marks. -/
def isSymbolChar (c : Char) : Bool :=
  c.isAlphanum || symbolMarks.contains c

/-- A symbol is a non-empty run of symbol characters. -/
def isSymbol (cs : List Char) : Bool :=
  !cs.isEmpty && cs.all isSymbolChar

/-- The class of a word, the first that fits. -/
def classify? (cs : List Char) : Option Lexeme :=
  if isLong cs then some .long
  else if isDouble cs then some .double
  else if isSymbol cs then some .symbol
  else none

end Lexeme

end QuoteLisp
