import QuoteLisp.Builtin
import QuoteLisp.Formals
import QuoteLisp.Numeric.Double

/-!
# Values

Programs and data are the same: numbers, faults, symbols, functions, and lists in round brackets
(programs) or braces (data). A lambda refers to the scope it was made in by the number of that
scope.
-/

set_option autoImplicit false

namespace QuoteLisp

open Numeric (Double)

/-- The number of a scope in the heap. -/
abbrev ScopeId := Nat

/-- A value of the language. -/
inductive Value where
  | integer (n : Int64)
  | double (x : Double)
  | fault (cause : Fault)
  | symbol (name : String)
  | builtin (function : Builtin)
  | lambda (formals : Formals) (body : List Value) (closure : ScopeId)
  | sexpr (items : List Value)
  | qexpr (items : List Value)
  deriving Repr

namespace Value

instance : Inhabited Value := ⟨.sexpr []⟩

/-- The result of a computation that has none: the empty program. -/
def unit : Value := .sexpr []

/-- Whether a value is a fault. -/
def isFault : Value → Bool
  | .fault _ => true
  | _ => false

/-- Whether a value, in function position, wants its arguments as they are written. -/
def isQuoting : Value → Bool
  | .builtin function => function.isQuoting
  | _ => false

/-- The items of a list of data. -/
def toItems : Value → Except Fault (List Value)
  | .qexpr items => .ok items
  | _ => .error .badType

/-- The name of a symbol. -/
def toName : Value → Except Fault String
  | .symbol name => .ok name
  | _ => .error .badType

mutual

/-- Equality of values: numbers of one type are compared as numbers, builtin functions by name, and
lambdas by parameters, body and the very scope they close over. -/
def equal : Value → Value → Bool
  | .integer m, .integer n => m == n
  | .double x, .double y => x.equal y
  | .fault f, .fault g => f == g
  | .symbol s, .symbol t => s == t
  | .builtin b, .builtin c => b == c
  | .lambda formals body closure, .lambda formals' body' closure' =>
      formals == formals' && equalAll body body' && closure == closure'
  | .sexpr items, .sexpr items' => equalAll items items'
  | .qexpr items, .qexpr items' => equalAll items items'
  | _, _ => false

/-- Equality of lists of values, item by item. -/
def equalAll : List Value → List Value → Bool
  | [], [] => true
  | v :: vs, w :: ws => equal v w && equalAll vs ws
  | _, _ => false

end

end Value

end QuoteLisp
