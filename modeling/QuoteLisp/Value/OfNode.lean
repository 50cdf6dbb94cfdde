import QuoteLisp.Node.Read
import QuoteLisp.Numeric.Numeral
import QuoteLisp.Value

/-!
# From trees to values

A tree means a value of the same shape. A literal that is out of range means a fault; a tag that is
not known means nothing, and the whole tree is refused.
-/

set_option autoImplicit false

namespace QuoteLisp

namespace Value

/-- The number that an integer literal spells, or a fault. -/
def ofLong (text : String) : Value :=
  match Numeric.readInt64? text.toList with
  | some n => .integer n
  | none => .fault .badNum

/-- The finite number that a double literal spells, or a fault. -/
def ofDouble (text : String) : Value :=
  match Numeric.readDouble? text.toList with
  | some x => if x.isFinite then .double x else .fault .badNum
  | none => .fault .badNum

/-- The value of a leaf. -/
def ofLeaf (lexeme : Lexeme) (text : String) : Value :=
  match lexeme with
  | .long => ofLong text
  | .double => ofDouble text
  | .symbol => .symbol text

mutual

/-- The value of a tree, or the first unknown tag. -/
def ofNode : Node → Except String Value
  | ⟨tag, contents, children⟩ =>
      match Node.Kind.ofTag? tag with
      | some (.leaf lexeme) => .ok (ofLeaf lexeme contents)
      | some .root => (ofNodes children).map .sexpr
      | some .sexpr => (ofNodes children).map .sexpr
      | some .qexpr => (ofNodes children).map .qexpr
      | none => .error tag

/-- The values of several trees, or the first unknown tag. -/
def ofNodes : List Node → Except String (List Value)
  | [] => .ok []
  | node :: rest =>
      match ofNode node with
      | .error tag => .error tag
      | .ok v =>
          match ofNodes rest with
          | .error tag => .error tag
          | .ok vs => .ok (v :: vs)

end

end Value

/-- Why a line gives no value to evaluate. -/
inductive InputError where
  | unreadable (cause : ReadError)
  | unknownTag (tag : String)
  deriving DecidableEq, Repr

namespace InputError

/-- The sentence that tells an error. -/
def message : InputError → String
  | unreadable cause => "read error: " ++ cause.message
  | unknownTag tag => "syntax error: unknown syntax tree tag '" ++ tag ++ "'"

/-- Whether the line held nothing at all. -/
def isEmpty : InputError → Bool
  | unreadable .empty => true
  | _ => false

end InputError

namespace Value

/-- The value that a tree means. -/
def adapt (node : Node) : Except InputError Value :=
  match ofNode node with
  | .ok v => .ok v
  | .error tag => .error (.unknownTag tag)

/-- The program that a text spells: its expressions in one list. -/
def parse (text : List Char) : Except InputError Value :=
  match Node.read text with
  | .ok node => adapt node
  | .error cause => .error (.unreadable cause)

end Value

end QuoteLisp
