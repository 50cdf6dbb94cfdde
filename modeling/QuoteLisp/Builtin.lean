import QuoteLisp.Arith
import QuoteLisp.Arity
import QuoteLisp.NameOrder

/-!
# Builtin functions

The functions that are known by name wherever no scope binds the name: what they are called, how
many arguments they take, and whether they see them reduced.
-/

set_option autoImplicit false

namespace QuoteLisp

/-- The builtin functions. Some are known by two names, and are then two functions that do the
same. -/
inductive Builtin where
  | arith (op : Arith)
  | list
  | quote
  | head
  | car
  | tail
  | cdr
  | init
  | join
  | len
  | cons
  | eval
  | define
  | assign
  | lambda
  deriving DecidableEq, Repr

namespace Builtin

/-- Every builtin function. -/
def all : List Builtin :=
  Arith.all.map arith ++
    [list, quote, head, car, tail, cdr, init, join, len, cons, eval, define, assign, lambda]

/-- The list of all builtin functions is complete. -/
theorem mem_all (builtin : Builtin) : builtin ∈ all := by
  cases builtin with
  | arith op => cases op <;> decide
  | _ => decide

/-- The name of a builtin function. -/
def name : Builtin → String
  | arith op => op.name
  | list => "list"
  | quote => "quote"
  | head => "head"
  | car => "car"
  | tail => "tail"
  | cdr => "cdr"
  | init => "init"
  | join => "join"
  | len => "len"
  | cons => "cons"
  | eval => "eval"
  | define => "def"
  | assign => "="
  | lambda => "\\"

/-- The builtin function of a name. -/
def ofName? (name : String) : Option Builtin :=
  all.find? fun builtin => builtin.name == name

/-- A name names the function it belongs to. -/
theorem ofName?_name (builtin : Builtin) : ofName? builtin.name = some builtin := by
  cases builtin with
  | arith op => cases op <;> decide
  | _ => decide

/-- The names of all builtin functions in order. -/
def sortedNames : List String :=
  sortNames (all.map name)

/-- The number of arguments of a builtin function. -/
def arity : Builtin → Arity
  | arith _ => .atLeast 1
  | list | quote => .atLeast 0
  | head | car | tail | cdr | init | len | eval => .exactly 1
  | join => .atLeast 1
  | cons | lambda => .exactly 2
  | define | assign => .atLeast 2

/-- Whether a builtin function sees its arguments as they are written. -/
def isQuoting : Builtin → Bool
  | list | quote => true
  | _ => false

/-- The printed form of a builtin function. -/
def text (builtin : Builtin) : String :=
  "<builtin " ++ builtin.name ++ ">"

/-- A builtin function as a person debugging would see it. -/
def inspect (builtin : Builtin) : String :=
  "builtin function #<" ++ builtin.name ++ ">"

end Builtin

end QuoteLisp
