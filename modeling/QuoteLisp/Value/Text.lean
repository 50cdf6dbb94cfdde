import QuoteLisp.Numeric.Numeral
import QuoteLisp.Value

/-!
# The text of a value

`Value.spell` is the printed form, which the reader takes back for data without faults and
functions. `Value.inspect` is the form for a person debugging, with every constructor spelled out.
-/

set_option autoImplicit false

namespace QuoteLisp

namespace Value

/-- Items with one space between them. -/
def spaced (items : List (List Char)) : List Char :=
  [' '].intercalate items

/-- A single text has no spaces around it. -/
theorem spaced_singleton (item : List Char) : spaced [item] = item := by
  simp [spaced, List.intercalate]

/-- A space stands between a text and the next. -/
theorem spaced_cons_cons (item next : List Char) (items : List (List Char)) :
    spaced (item :: next :: items) = item ++ ' ' :: spaced (next :: items) := by
  simp [spaced, List.intercalate]

mutual

/-- The printed form of a value. -/
def spell : Value → List Char
  | .integer n => Numeric.writeInt n.toInt
  | .double x => Numeric.writeDouble x
  | .fault cause => cause.message.toList
  | .symbol name => name.toList
  | .builtin function => function.text.toList
  | .lambda formals body _ =>
      ['(', '\\', ' '] ++ formals.spell ++ [' ', '\x7b'] ++ spaced (spellEach body) ++ ['\x7d', ')']
  | .sexpr items => '(' :: spaced (spellEach items) ++ [')']
  | .qexpr items => '\x7b' :: spaced (spellEach items) ++ ['\x7d']

/-- The printed forms of several values. -/
def spellEach : List Value → List (List Char)
  | [] => []
  | v :: vs => spell v :: spellEach vs

end

/-- The printed form as a string. -/
def text (v : Value) : String :=
  String.ofList v.spell

/-- The printed form in the pieces in which it is written out: brackets apart from what they
hold. -/
def pieces : Value → List (List Char)
  | .sexpr items => [['('], spaced (spellEach items), [')']]
  | .qexpr items => [['\x7b'], spaced (spellEach items), ['\x7d']]
  | .lambda formals body _ =>
      [['(', '\\', ' '], formals.spell, [' ', '\x7b'], spaced (spellEach body), ['\x7d', ')']]
  | v => [spell v]

/-- The pieces together are the printed form. -/
theorem flatten_pieces (v : Value) : v.pieces.flatten = v.spell := by
  cases v with
  | lambda formals body closure => simp [pieces, spell]
  | sexpr items => simp [pieces, spell]
  | qexpr items => simp [pieces, spell]
  | _ => simp only [pieces, List.flatten_cons, List.flatten_nil, List.append_nil]

/-- A name between double quotes, where a backslash goes before a quote and a backslash. -/
def inspectName (name : String) : String :=
  let escaped := name.toList.flatMap fun c => if c == '"' || c == '\\' then ['\\', c] else [c]
  "\"" ++ String.ofList escaped ++ "\""

/-- A symbol spelled out. -/
def inspectSymbol (name : String) : String :=
  "Symbol(" ++ inspectName name ++ ")"

/-- Parameters spelled out. -/
def inspectFormals (formals : Formals) : String :=
  let positional := String.intercalate ", " (formals.positional.map inspectSymbol)
  let others :=
    match formals.rest with
    | none => "None"
    | some rest => "Some(" ++ inspectSymbol rest ++ ")"
  "Formals \x7b positional: [" ++ positional ++ "], others: " ++ others ++ " \x7d"

mutual

/-- A value with every constructor spelled out, in pieces. -/
def inspectPieces : Value → List String
  | .integer n => ["Integer(", String.ofList (Numeric.writeInt n.toInt), ")"]
  | .double x => ["Double(", String.ofList (Numeric.writeDouble x), ")"]
  | .fault cause => ["Error(", cause.name, ")"]
  | .symbol name => ["Symbol(", inspectSymbol name, ")"]
  | .builtin function => ["Function(Builtin(", function.inspect, "))"]
  | .lambda formals body _ =>
      "Function(Lambda(Lambda\x7bformals: " :: inspectFormals formals :: ", body: [" ::
        inspectItems body ++ ["]\x7d))"]
  | .sexpr items => "SExpr([" :: inspectItems items ++ ["])"]
  | .qexpr items => "QExpr([" :: inspectItems items ++ ["])"]

/-- Several values with every constructor spelled out and commas between them, in pieces. -/
def inspectItems : List Value → List String
  | [] => []
  | [v] => inspectPieces v
  | v :: w :: rest => inspectPieces v ++ ", " :: inspectItems (w :: rest)

end

/-- A value with every constructor spelled out. -/
def inspect (v : Value) : String :=
  String.join v.inspectPieces

end Value

end QuoteLisp
