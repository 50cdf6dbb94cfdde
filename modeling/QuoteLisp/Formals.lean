import QuoteLisp.Arity

/-!
# Formal parameters

A lambda names its parameters: each positional name takes one argument, and a name after an
ampersand takes the list of all that are left.
-/

set_option autoImplicit false

namespace QuoteLisp

/-- The names of a lambda's parameters. -/
structure Formals where
  positional : List String
  rest : Option String
  deriving DecidableEq, Repr

namespace Formals

/-- The name that announces the name of the remaining arguments. -/
def ampersand : String := "&"

/-- Why a list of names is no list of parameters. -/
inductive Malformed where
  | tooManyAmpersands (count : Nat)
  | nothingAfterAmpersand
  | ampersandNotPenultimate
  deriving DecidableEq, Repr

/-- Splits a list of names into parameters. An ampersand may stand once, before the last name. -/
def ofNames (names : List String) : Except Malformed Formals :=
  match names.count ampersand with
  | 0 => .ok ⟨names, none⟩
  | 1 =>
      let positional := names.takeWhile (· != ampersand)
      match names.dropWhile (· != ampersand) with
      | [_] => .error .nothingAfterAmpersand
      | [_, rest] => .ok ⟨positional, some rest⟩
      | _ => .error .ampersandNotPenultimate
  | count => .error (.tooManyAmpersands count)

/-- The names as they are written in a list of parameters. -/
def names (formals : Formals) : List String :=
  match formals.rest with
  | none => formals.positional
  | some rest => formals.positional ++ [ampersand, rest]

/-- Parameters are written as the names that they were split from. -/
theorem names_eq_of_ofNames {names : List String} {formals : Formals}
    (h : ofNames names = .ok formals) : formals.names = names := by
  unfold ofNames at h
  split at h
  · cases h
    rfl
  · dsimp only at h
    split at h
    · cases h
    · next marker rest hdrop =>
        cases h
        -- the name that ends the positional ones is the ampersand itself
        have hmarker : marker = ampersand := by
          have hhead := List.head?_dropWhile_not (· != ampersand) names
          simpa [hdrop] using hhead
        have hsplit := List.takeWhile_append_dropWhile (p := (· != ampersand)) (l := names)
        rw [hdrop, hmarker] at hsplit
        exact hsplit
    · cases h
  · cases h

/-- The number of arguments: one for each positional name, or more if there is a name for the
rest. -/
def arity (formals : Formals) : Arity :=
  match formals.rest with
  | none => .exactly formals.positional.length
  | some _ => .atLeast formals.positional.length

/-- The spelling of the parameters: the names between braces. -/
def spell (formals : Formals) : List Char :=
  '\x7b' :: [' '].intercalate (formals.names.map String.toList) ++ ['\x7d']

/-- The text of the parameters. -/
def text (formals : Formals) : String :=
  String.ofList formals.spell

end Formals

end QuoteLisp
