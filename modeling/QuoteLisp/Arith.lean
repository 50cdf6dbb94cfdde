import QuoteLisp.Fault
import QuoteLisp.Numeric.Double

/-!
# Arithmetic

The eight operations on numbers, on 64-bit integers, where results wrap around, and on doubles,
where every result is finite or a fault. A list of operands is folded from the left.
-/

set_option autoImplicit false

namespace QuoteLisp

open Numeric (Double)

/-- The operations on numbers. -/
inductive Arith where
  | add
  | sub
  | mul
  | div
  | rem
  | pow
  | min
  | max
  deriving DecidableEq, Repr

namespace Arith

/-- Every operation. -/
def all : List Arith :=
  [add, sub, mul, div, rem, pow, min, max]

/-- The name of an operation. -/
def name : Arith → String
  | add => "+"
  | sub => "-"
  | mul => "*"
  | div => "/"
  | rem => "%"
  | pow => "^"
  | min => "min"
  | max => "max"

/-- `result` times a power of `base`, by squaring. -/
def powTimes (result base : Int64) (exponent : Nat) : Int64 :=
  if h : exponent = 0 then result
  else
    powTimes (if exponent % 2 = 1 then result * base else result) (base * base) (exponent / 2)
termination_by exponent
decreasing_by exact Nat.div_lt_self (Nat.pos_of_ne_zero h) (by decide)

/-- Integer power. A negative exponent gives the integer part of a fraction, which is zero unless
the base is one or minus one. -/
def powInt64 (base exponent : Int64) : Except Fault Int64 :=
  if 0 ≤ exponent then .ok (powTimes 1 base exponent.toInt.toNat)
  else if base = 0 then .error .divZero
  else if base = 1 then .ok 1
  else if base = -1 then .ok (if exponent % 2 = 0 then 1 else -1)
  else .ok 0

/-- An operation on integers. Division truncates toward zero, and the remainder has the sign of the
dividend. -/
def onInt64 (op : Arith) (x y : Int64) : Except Fault Int64 :=
  match op with
  | add => .ok (x + y)
  | sub => .ok (x - y)
  | mul => .ok (x * y)
  | div => if y = 0 then .error .divZero else .ok (x / y)
  | rem => if y = 0 then .error .divZero else .ok (x % y)
  | pow => powInt64 x y
  | min => .ok (if y < x then y else x)
  | max => .ok (if x < y then y else x)

/-- An operation on doubles, whatever its result. -/
def rawDouble (op : Arith) (x y : Double) : Double :=
  match op with
  | add => x.add y
  | sub => x.sub y
  | mul => x.mul y
  | div => x.div y
  | rem => x.rem y
  | pow => x.pow y
  | min => x.min y
  | max => x.max y

/-- The operands of which a quotient by zero would be taken. -/
def dividesByZero (op : Arith) (x y : Double) : Bool :=
  match op with
  | div | rem => y.isZero
  | pow => x.isZero && y.less (.ofInt 0)
  | _ => false

/-- An operation on doubles; a result that is not finite is no number. -/
def onDouble (op : Arith) (x y : Double) : Except Fault Double :=
  if op.dividesByZero x y then .error .divZero
  else
    let result := op.rawDouble x y
    if result.isFinite then .ok result else .error .badNum

/-- Folds a list of operands from the left. A lone operand is returned as it is, except that a lone
operand of a difference is negated. -/
def fold {α : Type} (op : Arith) (negate : α → α) (combine : α → α → Except Fault α) :
    List α → Except Fault α
  | [] => .error .badArgsCount
  | [x] => .ok (if op = sub then negate x else x)
  | x :: y :: rest => (y :: rest).foldlM combine x

/-- An operation on a list of integers. -/
def foldInt64 (op : Arith) (xs : List Int64) : Except Fault Int64 :=
  op.fold (fun x => -x) op.onInt64 xs

/-- An operation on a list of doubles. -/
def foldDouble (op : Arith) (xs : List Double) : Except Fault Double :=
  op.fold Double.neg op.onDouble xs

end Arith

end QuoteLisp
