import QuoteLisp.Heap

/-!
# What builtin functions do

A builtin function does no more than look at its arguments: `Builtin.perform` tells what is to
happen, and the evaluator makes it happen. So that a function gives a value, makes definitions or
asks for a list to be reduced is visible in its `Effect`.
-/

set_option autoImplicit false

namespace QuoteLisp

open Numeric (Double)

/-- Where a definition goes: to the root or to the scope at hand. -/
inductive Place where
  | global
  | here
  deriving DecidableEq, Repr

/-- What a builtin function asks for. -/
inductive Effect where
  /-- The result is this value. -/
  | give (v : Value)
  /-- The names get these values, and there is no result. -/
  | bind (place : Place) (entries : List (String × Value))
  /-- The result is that of these items as a program. -/
  | reduce (items : List Value)

/-- Numbers of one type. -/
inductive Operands where
  | integers (xs : List Int64)
  | doubles (xs : List Double)
  deriving DecidableEq, Repr

namespace Operands

/-- No operands. -/
def none : Operands := .integers []

/-- Operands as doubles, integers rounded to the nearest. -/
def toDoubles : Operands → List Double
  | integers xs => xs.map fun n => .ofInt n.toInt
  | doubles xs => xs

/-- Puts a number in front. One double makes all operands doubles. -/
def cons? (v : Value) (operands : Operands) : Except Fault Operands :=
  match v, operands with
  | .integer n, integers ns => .ok (integers (n :: ns))
  | .integer n, doubles xs => .ok (doubles (.ofInt n.toInt :: xs))
  | .double x, operands => .ok (doubles (x :: operands.toDoubles))
  | _, _ => .error .badNum

/-- The operands among which there is nothing but numbers. -/
def ofValues : List Value → Except Fault Operands
  | [] => .ok none
  | v :: vs =>
      match ofValues vs with
      | .ok operands => operands.cons? v
      | .error fault => .error fault

end Operands

namespace Builtin

/-- The first argument, as a list of data. -/
def firstList : List Value → Except Fault (List Value)
  | [] => .error .badArgsCount
  | v :: _ => v.toItems

/-- The first argument, as a list of data that is not empty. -/
def firstNonempty (args : List Value) : Except Fault (Value × List Value) :=
  match firstList args with
  | .ok (v :: vs) => .ok (v, vs)
  | .ok [] => .error .empty
  | .error fault => .error fault

/-- The items of several lists, one list after the other. -/
def joinItems : List Value → Except Fault (List Value)
  | [] => .ok []
  | v :: vs =>
      match v.toItems with
      | .error fault => .error fault
      | .ok items =>
          match joinItems vs with
          | .ok rest => .ok (items ++ rest)
          | .error fault => .error fault

/-- The names of several symbols. -/
def toNames : List Value → Except Fault (List String)
  | [] => .ok []
  | v :: vs =>
      match v.toName with
      | .error fault => .error fault
      | .ok name =>
          match toNames vs with
          | .ok names => .ok (name :: names)
          | .error fault => .error fault

/-- A list of data as the result. -/
def giveList (items : List Value) : Except Fault Effect :=
  .ok (.give (.qexpr items))

/-- An operation on numbers. -/
def calculate (op : Arith) (args : List Value) : Except Fault Effect :=
  match Operands.ofValues args with
  | .error fault => .error fault
  | .ok (.integers xs) => (op.foldInt64 xs).map fun n => .give (.integer n)
  | .ok (.doubles xs) => (op.foldDouble xs).map fun x => .give (.double x)

/-- An element in front of a list; it stays one element, even if it is a list itself. -/
def construct : List Value → Except Fault Effect
  | v :: target :: _ =>
      match target.toItems with
      | .ok items => giveList (v :: items)
      | .error fault => .error fault
  | _ => .error .badArgsCount

/-- Definitions: a list of names and one value for each of them. Nothing is defined unless all
is. -/
def bindNames (place : Place) : List Value → Except Fault Effect
  | [] => .error .badArgsCount
  | target :: values =>
      match target.toItems with
      | .error fault => .error fault
      | .ok items =>
          match toNames items with
          | .error fault => .error fault
          | .ok names =>
              if names.isEmpty || names.length != values.length then .error .badArgsCount
              else .ok (.bind place (names.zip values))

/-- A lambda from a list of parameters and a body; it closes over the scope at hand. -/
def abstract (scope : ScopeId) : List Value → Except Fault Effect
  | params :: code :: _ =>
      match params.toItems, code.toItems with
      | .error fault, _ => .error fault
      | _, .error fault => .error fault
      | .ok symbols, .ok body =>
          match toNames symbols with
          | .error fault => .error fault
          | .ok names =>
              match Formals.ofNames names with
              | .ok formals => .ok (.give (.lambda formals body scope))
              | .error _ => .error .badArgsCount
  | _ => .error .badArgsCount

/-- What a builtin function asks for when it is called in a scope. -/
def perform (function : Builtin) (scope : ScopeId) (args : List Value) : Except Fault Effect :=
  match function with
  | arith op => calculate op args
  | list | quote => giveList args
  | head | car => (firstNonempty args).bind fun (v, _) => giveList [v]
  | tail | cdr => (firstNonempty args).bind fun (_, vs) => giveList vs
  | init => (firstNonempty args).bind fun (v, vs) => giveList (v :: vs).dropLast
  | join => (joinItems args).bind giveList
  | len =>
      (firstList args).map fun items => .give (.integer (Int64.ofInt items.length))
  | cons => construct args
  | eval => (firstList args).map .reduce
  | define => bindNames .global args
  | assign => bindNames .here args
  | lambda => abstract scope args

end Builtin

end QuoteLisp
