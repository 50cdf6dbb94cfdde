/-!
# Faults

The nine errors of the language. A fault is a value like any other; its text is one sentence.
-/

set_option autoImplicit false

namespace QuoteLisp

/-- What went wrong in a computation. -/
inductive Fault where
  | divZero
  | badOp
  | badNum
  | unboundSymbol
  | badSexprStart
  | badType
  | empty
  | tooManyArgs
  | badArgsCount
  deriving DecidableEq, Repr

namespace Fault

/-- Every fault. -/
def all : List Fault :=
  [divZero, badOp, badNum, unboundSymbol, badSexprStart, badType, empty, tooManyArgs,
    badArgsCount]

/-- The list of all faults is complete. -/
theorem mem_all (fault : Fault) : fault ∈ all := by
  cases fault <;> decide

/-- The name of a fault. -/
def name : Fault → String
  | divZero => "DivZero"
  | badOp => "BadOp"
  | badNum => "BadNum"
  | unboundSymbol => "UnboundSymbol"
  | badSexprStart => "BadSexprStart"
  | badType => "BadType"
  | empty => "Empty"
  | tooManyArgs => "TooManyArgs"
  | badArgsCount => "BadArgsCount"

/-- The fault of a name. -/
def ofName? (name : String) : Option Fault :=
  all.find? fun fault => fault.name == name

/-- The sentence that tells a fault. -/
def sentence : Fault → String
  | divZero => "Division By Zero!"
  | badOp => "Invalid Operator!"
  | badNum => "Invalid Number!"
  | unboundSymbol => "Unbound Symbol!"
  | badSexprStart => "S-Expression Does Not Start With Function!"
  | badType => "Incorrect Type!"
  | empty => "Empty List!"
  | tooManyArgs => "Too Many Arguments!"
  | badArgsCount => "Incorrect Number Of Arguments!"

/-- The sentence as it is printed. -/
def message (fault : Fault) : String :=
  "Error: " ++ fault.sentence

end Fault

end QuoteLisp
