/-!
# Lines of a text

A line ends at a newline, or at a carriage return directly before one; a carriage return anywhere
else belongs to its line. A text that ends in a newline has no empty line after it.
-/

set_option autoImplicit false

namespace QuoteLisp.Text

/-- Puts a character in front of the first line. -/
def consLine (c : Char) : List (List Char) → List (List Char)
  | [] => [[c]]
  | line :: rest => (c :: line) :: rest

/-- The lines of a text, without their ends. -/
def lines : List Char → List (List Char)
  | [] => []
  | '\r' :: '\n' :: cs => [] :: lines cs
  | '\n' :: cs => [] :: lines cs
  | c :: cs => consLine c (lines cs)

end QuoteLisp.Text
