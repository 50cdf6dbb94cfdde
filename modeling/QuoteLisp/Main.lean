import QuoteLisp.Session

/-!
# The command line

With arguments, each names a file that is evaluated line by line. Without, lines are taken from the
standard input and answered as they come.
-/

set_option autoImplicit false

namespace QuoteLisp.CommandLine

/-- The number with which the system tells that a file is a directory. -/
def isDirectoryCode : UInt32 := 21

/-- Why the system could not read a file. -/
def faultOfError : IO.Error → FileFault
  | .noFileOrDirectory .. => .missing
  | .inappropriateType _ code _ =>
      if code = isDirectoryCode then .isDirectory else .notDirectory
  | e => .other (toString e)

/-- Reads a file as text. -/
def readFile (path : String) : IO (Except FileFault (List Char)) := do
  try
    let bytes ← IO.FS.readBinFile path
    return textOfBytes bytes
  catch e => return .error (faultOfError e)

/-- The complaint about a program that nests too deep. -/
def tooDeep : String := "the program nests too deep"

/-- Evaluates files and reports. -/
def runFiles (paths : List String) : IO UInt32 := do
  let contents ← paths.mapM fun path => do return (path, ← readFile path)
  let find := fun path =>
    match contents.find? fun file => file.1 == path with
    | some file => file.2
    | none => .error .missing
  match (Run.start .initial none).runFiles Session.defaultBound Heap.globalId find paths with
  | none =>
      IO.eprintln tooDeep
      return 1
  | some run =>
      let report := run.report
      (← IO.getStdout).write ⟨report.output.toArray⟩
      IO.eprint report.complaint
      return UInt32.ofNat report.code

/-- Answers lines until the input ends. -/
partial def converse (heap : Heap) : IO UInt32 := do
  let line ← (← IO.getStdin).getLine
  if line.isEmpty then return 0
  match Session.answerLine Session.defaultBound heap Heap.globalId line.toList with
  | none =>
      IO.eprintln tooDeep
      converse heap
  | some (answer, heap) =>
      if let some text := answer then IO.println (String.ofList text)
      converse heap

end QuoteLisp.CommandLine

/-- The program. -/
def main (args : List String) : IO UInt32 :=
  if args.isEmpty then QuoteLisp.CommandLine.converse .initial
  else QuoteLisp.CommandLine.runFiles args
