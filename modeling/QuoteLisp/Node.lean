import QuoteLisp.Lexeme
import QuoteLisp.Token

/-!
# Trees of a text

A `Node` is a tagged tree: a leaf carries the word it was read from, a group carries its children.
The tags are plain strings, so that trees from elsewhere can carry any; `Kind` tells the known ones
apart.
-/

set_option autoImplicit false

namespace QuoteLisp

/-- A tagged tree. -/
structure Node where
  tag : String
  contents : String
  children : List Node
  deriving Repr

namespace Node

/-- What a known tag says about its node. -/
inductive Kind where
  | root
  | sexpr
  | qexpr
  | leaf (lexeme : Lexeme)
  deriving DecidableEq, Repr

namespace Kind

/-- The tag of a kind. -/
def tag : Kind → String
  | root => ">"
  | sexpr => "sexpr"
  | qexpr => "qexpr"
  | leaf .long => "long"
  | leaf .double => "double"
  | leaf .symbol => "symbol"

/-- Every kind. -/
def all : List Kind :=
  [root, sexpr, qexpr, leaf .long, leaf .double, leaf .symbol]

/-- The kind that a tag names. -/
def ofTag? (tag : String) : Option Kind :=
  all.find? fun kind => kind.tag == tag

/-- The kind of a group in these brackets. -/
def ofBracket : Bracket → Kind
  | .round => sexpr
  | .brace => qexpr

/-- A tag names the kind it belongs to. -/
theorem ofTag?_tag (kind : Kind) : ofTag? kind.tag = some kind := by
  rcases kind with _ | _ | _ | (_ | _ | _) <;> decide

end Kind

/-- A node without children. -/
def leaf (lexeme : Lexeme) (text : List Char) : Node :=
  ⟨(Kind.leaf lexeme).tag, String.ofList text, []⟩

/-- A node without contents. -/
def group (kind : Kind) (children : List Node) : Node :=
  ⟨kind.tag, "", children⟩

mutual

/-- The number of nodes of a tree, its root included. -/
def size : Node → Nat
  | ⟨_, _, children⟩ => 1 + sizeAll children

/-- The number of nodes of several trees. -/
def sizeAll : List Node → Nat
  | [] => 0
  | node :: rest => node.size + sizeAll rest

end

end Node

end QuoteLisp
