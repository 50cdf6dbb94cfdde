import QuoteLisp.Bindings

/-!
# The heap of scopes

Scopes are numbered as they are made. Each has its own bindings and, except for the root, an
enclosing scope, which was made before it. `Heap.chain` lists a scope and those that enclose it; what
a name means, where the root is and how deep a scope lies are all read off that list.
-/

set_option autoImplicit false

namespace QuoteLisp

/-- One scope: its own bindings and the scope that encloses it. -/
structure Scope where
  parent : Option ScopeId
  bindings : Bindings

namespace Scope

/-- A scope that binds nothing. -/
def fresh (parent : Option ScopeId) : Scope := ⟨parent, .empty⟩

/-- A scope with one more definition. -/
def define (scope : Scope) (name : String) (v : Value) : Scope :=
  { scope with bindings := scope.bindings.insert name v }

/-- A scope with several more definitions, a later one in place of an earlier one. -/
def defineAll (scope : Scope) (entries : List (String × Value)) : Scope :=
  entries.foldl (fun s entry => s.define entry.1 entry.2) scope

end Scope

/-- All scopes, in the order in which they were made. -/
structure Heap where
  scopes : Array Scope

namespace Heap

/-- The number of the scope that a heap starts with. -/
def globalId : ScopeId := 0

/-- A heap with one root that binds nothing. -/
def initial : Heap := ⟨#[.fresh none]⟩

/-- The number of scopes. -/
def size (heap : Heap) : Nat :=
  heap.scopes.size

/-- The enclosing scope. Only a scope made earlier can enclose another. -/
def parent? (heap : Heap) (id : ScopeId) : Option ScopeId :=
  (heap.scopes[id]?.bind Scope.parent).filter (· < id)

/-- The enclosing scope has a smaller number. -/
theorem parent?_lt {heap : Heap} {id parent : ScopeId} (h : heap.parent? id = some parent) :
    parent < id := by
  simpa using (Option.filter_eq_some_iff.1 h).2

/-- What a scope binds itself. -/
def bindings (heap : Heap) (id : ScopeId) : Bindings :=
  match heap.scopes[id]? with
  | some scope => scope.bindings
  | none => .empty

/-- A scope and those that enclose it, from the innermost to the root. -/
def chain (heap : Heap) (id : ScopeId) : List ScopeId :=
  match _h : heap.parent? id with
  | none => [id]
  | some parent => id :: heap.chain parent
termination_by id
decreasing_by exact parent?_lt ‹_›

/-- A chain starts with the scope itself. -/
theorem chain_ne_nil (heap : Heap) (id : ScopeId) : heap.chain id ≠ [] := by
  rw [chain]
  split <;> simp

/-- The outermost scope around a scope. -/
def root (heap : Heap) (id : ScopeId) : ScopeId :=
  (heap.chain id).getLast (heap.chain_ne_nil id)

/-- The number of scopes that enclose a scope. -/
def depth (heap : Heap) (id : ScopeId) : Nat :=
  (heap.chain id).length - 1

/-- What a name means in a scope: the innermost binding, else the builtin function. -/
def lookup (heap : Heap) (id : ScopeId) (name : String) : Except Fault Value :=
  match (heap.chain id).findSome? fun scope => (heap.bindings scope).get? name with
  | some v => .ok v
  | none =>
      match Builtin.ofName? name with
      | some function => .ok (.builtin function)
      | none => .error .unboundSymbol

/-- The heap after a definition in a scope. -/
def define (heap : Heap) (id : ScopeId) (name : String) (v : Value) : Heap :=
  ⟨heap.scopes.modify id fun scope => scope.define name v⟩

/-- Defines a name in a scope, and gives what the scope itself bound it to before. -/
def defineLocal (heap : Heap) (id : ScopeId) (name : String) (v : Value) : Option Value × Heap :=
  ((heap.bindings id).get? name, heap.define id name v)

/-- Defines a name in the root around a scope, and gives what the root bound it to before. -/
def defineGlobal (heap : Heap) (id : ScopeId) (name : String) (v : Value) : Option Value × Heap :=
  heap.defineLocal (heap.root id) name v

/-- The heap after several definitions in a scope, from the first to the last. -/
def defineAll (heap : Heap) (id : ScopeId) (entries : List (String × Value)) : Heap :=
  entries.foldl (fun h entry => h.define id entry.1 entry.2) heap

/-- Adds a scope and gives its number. -/
def push (heap : Heap) (scope : Scope) : ScopeId × Heap :=
  (heap.size, ⟨heap.scopes.push scope⟩)

/-- Adds a scope that binds nothing yet. -/
def spawn (heap : Heap) (parent : ScopeId) : ScopeId × Heap :=
  heap.push (.fresh (some parent))

/-- What a scope looks like: how deep it lies, and the names it binds itself in order. -/
def describe (heap : Heap) (id : ScopeId) : String :=
  "<env depth " ++ (heap.depth id).repr ++ ": " ++
    String.intercalate " " (heap.bindings id).names ++ ">"

end Heap

namespace Formals

/-- Matches arguments with parameters: one for each positional name, and the list of all that are
left for the name of the rest. -/
def matchArgs (rest : Option String) :
    List String → List Value → Except Fault (List (String × Value))
  | [], args =>
      match rest, args with
      | some name, _ => .ok [(name, .qexpr args)]
      | none, [] => .ok []
      | none, _ :: _ => .error .tooManyArgs
  | _ :: _, [] => .error .badArgsCount
  | name :: names, v :: args =>
      match matchArgs rest names args with
      | .ok entries => .ok ((name, v) :: entries)
      | .error fault => .error fault

end Formals

namespace Heap

/-- Adds the scope of one call: it lies in the scope that the function closes over and binds the
parameters to the arguments. -/
def enter (heap : Heap) (closure : ScopeId) (formals : Formals) (args : List Value) :
    Except Fault (ScopeId × Heap) :=
  match Formals.matchArgs formals.rest formals.positional args with
  | .ok entries => .ok (heap.push ((Scope.fresh (some closure)).defineAll entries))
  | .error fault => .error fault

end Heap

end QuoteLisp
