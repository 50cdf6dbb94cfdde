import QuoteLisp.Fault

/-!
# Numbers of arguments

How many arguments a function takes, and which fault it is to give it more or fewer.
-/

set_option autoImplicit false

namespace QuoteLisp

/-- A range of numbers of arguments; `between low high` includes both ends. -/
inductive Arity where
  | between (low high : Nat)
  | atLeast (low : Nat)
  deriving DecidableEq, Repr

namespace Arity

/-- One number of arguments only. -/
def exactly (n : Nat) : Arity := between n n

/-- Whether a function of this arity takes `n` arguments. -/
def contains (n : Nat) : Arity → Bool
  | between low high => low ≤ n && n ≤ high
  | atLeast low => low ≤ n

/-- Refuses a number of arguments that is not in the range. Only a range with an upper end can be
exceeded; every other wrong number is simply incorrect. -/
def check (n : Nat) (arity : Arity) : Except Fault Unit :=
  if arity.contains n then .ok ()
  else
    match arity with
    | between _ high => if high < n then .error .tooManyArgs else .error .badArgsCount
    | atLeast _ => .error .badArgsCount

/-- The arity in words. -/
def text : Arity → String
  | between low high =>
      if low = high then "exactly " ++ low.repr else "from " ++ low.repr ++ " to " ++ high.repr
  | atLeast low => "at least " ++ low.repr

end Arity

end QuoteLisp
