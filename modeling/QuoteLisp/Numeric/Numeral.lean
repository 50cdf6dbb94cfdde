import QuoteLisp.Numeric.Decimal

/-!
# Numerals

How numbers are written and read. Integers are plain decimal. Doubles are written with the fewest
digits that read back, positionally with at least one fraction digit while the leading digit stands
between `10 ^ -4` and `10 ^ 15`, and otherwise with an exponent.
-/

set_option autoImplicit false

namespace QuoteLisp.Numeric

/-- A decimal digit. -/
def isDigit (c : Char) : Bool :=
  '0' ≤ c && c ≤ '9'

/-- The number that a list of decimal digits spells. -/
def digitsValue (cs : List Char) : Nat :=
  cs.foldl (fun n c => n * 10 + (c.toNat - '0'.toNat)) 0

/-- The number that a non-empty list of digits spells, and nothing for any other text. -/
def readDigits? (cs : List Char) : Option Nat :=
  if !cs.isEmpty && cs.all isDigit then some (digitsValue cs) else none

/-- Splits off a leading sign; `true` stands for minus. -/
def splitSign : List Char → Bool × List Char
  | '-' :: cs => (true, cs)
  | '+' :: cs => (false, cs)
  | cs => (false, cs)

/-- An integer with this sign and magnitude. -/
def signed (negative : Bool) (n : Nat) : Int :=
  if negative then -(n : Int) else n

/-- A word as an integer of any size: an optional sign and then digits. -/
def readInt? (cs : List Char) : Option Int :=
  let (negative, digits) := splitSign cs
  (readDigits? digits).map (signed negative)

/-- An integer as a 64-bit integer, if it is in range. -/
def toInt64? (n : Int) : Option Int64 :=
  if Int64.minValue.toInt ≤ n ∧ n ≤ Int64.maxValue.toInt then some (Int64.ofInt n) else none

/-- Reads a 64-bit integer; a number out of range is refused. -/
def readInt64? (cs : List Char) : Option Int64 :=
  (readInt? cs).bind toInt64?

/-- Writes a natural number. -/
def writeNat (n : Nat) : List Char :=
  Nat.toDigits 10 n

/-- Writes an integer, with a minus sign if it is negative. -/
def writeInt (n : Int) : List Char :=
  if n < 0 then '-' :: writeNat n.natAbs else writeNat n.natAbs

/-- Reads the exponent part after the digits of a numeral: nothing, or a mark, an optional sign and
digits. -/
def readExponent? : List Char → Option Int
  | [] => some 0
  | c :: cs => if c == 'e' || c == 'E' then readInt? cs else none

/-- Reads the digits of a numeral with an optional point and an optional exponent; there is a digit
before or after the point. -/
def readDecimal? (cs : List Char) : Option Decimal :=
  let whole := cs.takeWhile isDigit
  let (fraction, rest) :=
    match cs.dropWhile isDigit with
    | '.' :: ds => (ds.takeWhile isDigit, ds.dropWhile isDigit)
    | ds => ([], ds)
  if whole.isEmpty && fraction.isEmpty then none
  else
    (readExponent? rest).map fun exponent =>
      ⟨digitsValue (whole ++ fraction), exponent - fraction.length⟩

/-- Reads a double: an optional sign, then a numeral or, in any case of letters, the name of an
infinity or of a NaN. -/
def readDouble? (cs : List Char) : Option Double :=
  let (negative, body) := splitSign cs
  let name := String.ofList (body.map Char.toLower)
  if name = "inf" ∨ name = "infinity" then some (.infinity negative)
  else if name = "nan" then some (if negative then Double.nan.neg else .nan)
  else (readDecimal? body).map fun d => .ofSign negative d.toMagnitude

/-- Writes a decimal positionally, with at least one digit on each side of the point. -/
def writePositional (d : Decimal) : List Char :=
  match d.exponent with
  | .ofNat e => d.digits ++ List.replicate e '0' ++ ['.', '0']
  | .negSucc e =>
      let places := e + 1
      let digits := List.replicate (places + 1 - d.digits.length) '0' ++ d.digits
      digits.take (digits.length - places) ++ '.' :: digits.drop (digits.length - places)

/-- Writes a decimal with one digit before the point, which is left out if nothing follows it, and
an exponent. -/
def writeScientific (d : Decimal) : List Char :=
  let fraction :=
    match d.digits.drop 1 with
    | [] => []
    | cs => '.' :: cs
  d.digits.take 1 ++ fraction ++ 'e' :: writeInt d.leadingExponent

/-- The least power of ten at which a leading digit is written positionally. -/
def positionalFrom : Int := -4

/-- The least power of ten at which a leading digit is too large to be written positionally. -/
def positionalBelow : Int := 16

/-- Writes the magnitude of a finite double. -/
def writeMagnitude (magnitude : Nat) : List Char :=
  if magnitude = 0 then ['0', '.', '0']
  else
    let d := Decimal.shortest magnitude
    if positionalFrom ≤ d.leadingExponent ∧ d.leadingExponent < positionalBelow then
      writePositional d
    else writeScientific d

/-- Writes a double. A NaN has no sign. -/
def writeDouble (x : Double) : List Char :=
  if x.isNaN then ['N', 'a', 'N']
  else
    let body := if x.isFinite then writeMagnitude x.magnitude else ['i', 'n', 'f']
    if x.isNegative then '-' :: body else body

end QuoteLisp.Numeric
