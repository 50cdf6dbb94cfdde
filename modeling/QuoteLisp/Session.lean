import QuoteLisp.Eval
import QuoteLisp.Files
import QuoteLisp.Text.Lines
import QuoteLisp.Value.OfNode
import QuoteLisp.Value.Render

/-!
# Sessions

Lines of text are evaluated one after the other in one scope of one heap. A line that holds nothing
has no answer, any other line has one: the printed result, or the reason why it could not be read.
A run over a source or over files writes each answer, followed by a newline, to a sink, and stops
where the sink is full or a file cannot be read.

As in `eval`, the first argument bounds how deep reductions may nest, and `none` means that the bound
was too small.
-/

set_option autoImplicit false

namespace QuoteLisp

namespace Session

/-- A bound on nested reductions that no sensible program exceeds. -/
def defaultBound : Nat := 100000

/-- Evaluates the program that a line spells. A line that gives no program changes nothing. -/
def evalLine (bound : Nat) (heap : Heap) (scope : ScopeId) (line : List Char) :
    Option (Except InputError Value × Heap) :=
  match Value.parse line with
  | .error cause => some (.error cause, heap)
  | .ok program =>
      match eval bound heap scope program with
      | none => none
      | some (v, heap) => some (.ok v, heap)

/-- What is shown for the result of a line, if anything. -/
def reply : Except InputError Value → Option (List Char)
  | .ok v => some v.format
  | .error cause => if cause.isEmpty then none else some ("Error: " ++ cause.message).toList

/-- Evaluates a line and gives what is shown for it. -/
def answerLine (bound : Nat) (heap : Heap) (scope : ScopeId) (line : List Char) :
    Option (Option (List Char) × Heap) :=
  match evalLine bound heap scope line with
  | none => none
  | some (result, heap) => some (reply result, heap)

end Session

/-- Why a run ended early. -/
inductive Stop where
  | sinkFull
  | unreadable (file : String) (cause : FileFault)
  deriving DecidableEq, Repr

namespace Stop

/-- The sentence that tells why a run ended early. -/
def message : Stop → String
  | sinkFull => "io error: failed to write whole buffer"
  | unreadable file cause => "cannot read " ++ file ++ ": " ++ cause.message

end Stop

/-- How far a run has come: the heap it has made, what it has written, and why it ended early, if it
did. -/
structure Run where
  heap : Heap
  sink : Sink
  stop : Option Stop

namespace Run

/-- A run that has not begun. -/
def start (heap : Heap) (room : Option Nat) : Run := ⟨heap, .fresh room, none⟩

/-- Writes an answer and a newline. -/
def writeAnswer (heap : Heap) (sink : Sink) (answer : List Char) : Run :=
  match sink.writeAll [Text.encode answer, Text.encode ['\n']] with
  | (sink, true) => ⟨heap, sink, none⟩
  | (sink, false) => ⟨heap, sink, some .sinkFull⟩

/-- Evaluates one more line, unless the run has ended, and writes its answer. -/
def runLine (bound : Nat) (scope : ScopeId) (run : Run) (line : List Char) : Option Run :=
  match run.stop with
  | some _ => some run
  | none =>
      match Session.answerLine bound run.heap scope line with
      | none => none
      | some (none, heap) => some { run with heap := heap }
      | some (some answer, heap) => some (writeAnswer heap run.sink answer)

/-- Evaluates several lines. -/
def runLines (bound : Nat) (scope : ScopeId) (run : Run) : List (List Char) → Option Run
  | [] => some run
  | line :: lines =>
      match run.runLine bound scope line with
      | none => none
      | some run => runLines bound scope run lines

/-- Evaluates every line of a source. -/
def runSource (bound : Nat) (scope : ScopeId) (run : Run) (source : List Char) : Option Run :=
  run.runLines bound scope (Text.lines source)

/-- Evaluates files one after the other, up to the first that cannot be read. -/
def runFiles (bound : Nat) (scope : ScopeId) (contents : String → Except FileFault (List Char))
    (run : Run) : List String → Option Run
  | [] => some run
  | file :: files =>
      match run.stop with
      | some _ => some run
      | none =>
          match contents file with
          | .error cause => some { run with stop := some (.unreadable file cause) }
          | .ok source =>
              match run.runSource bound scope source with
              | none => none
              | some run => runFiles bound scope contents run files

/-- What the program that runs files leaves behind: its output, its complaint and its exit code. -/
structure Report where
  output : List UInt8
  complaint : String
  code : Nat

/-- The report of a run: a run that ended early says why and fails. -/
def report (run : Run) : Report :=
  match run.stop with
  | none => ⟨run.sink.written, "", 0⟩
  | some stop => ⟨run.sink.written, stop.message ++ "\n", 1⟩

end Run

end QuoteLisp
