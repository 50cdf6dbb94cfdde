/-!
# Blank characters

The characters that only keep words apart. `isBlank` is the Unicode property `White_Space`;
`isSeparator` adds the comma, which a program may use wherever it may use a space.
-/

set_option autoImplicit false

namespace QuoteLisp.Text

/-- The code point ranges, ends included, of the Unicode property `White_Space`. -/
def blankRanges : List (Nat × Nat) :=
  [(0x0009, 0x000D), (0x0020, 0x0020), (0x0085, 0x0085), (0x00A0, 0x00A0), (0x1680, 0x1680),
    (0x2000, 0x200A), (0x2028, 0x2029), (0x202F, 0x202F), (0x205F, 0x205F), (0x3000, 0x3000)]

/-- A character is blank when it has the Unicode property `White_Space`. -/
def isBlank (c : Char) : Bool :=
  blankRanges.any fun r => r.1 ≤ c.toNat && c.toNat ≤ r.2

/-- A separator is a blank or a comma. -/
def isSeparator (c : Char) : Bool :=
  isBlank c || c == ','

/-- The newline separates words. -/
theorem isSeparator_newline : isSeparator '\n' = true := by decide

/-- The space separates words. -/
theorem isSeparator_space : isSeparator ' ' = true := by decide

end QuoteLisp.Text
