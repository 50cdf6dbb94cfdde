import QuoteLisp.Proofs.Answers
import QuoteLisp.Proofs.Comments

/-!
# Files one after the other

To run files one after the other is to run their texts as one source, with a newline between each two.
The joint of two texts may bring in a blank line, where the first one already ended in a newline, and
it may take a carriage return from the end of a line. Neither is noticed: a blank line is not answered,
and a carriage return at the end of a line belongs to a comment or is only a separator. So a run over
two texts with a newline between them is the run over the first and then that over the second
(`Run.runSource_append_newline`), whatever has become of the sink in the meantime.
-/

set_option autoImplicit false

namespace QuoteLisp

/-! ### Lines at a joint -/

namespace Text

/-- What holds of the last line of a text, and of a text if it holds of the lines after the first,
holds of every text. -/
theorem induction_lines {motive : List Char → Prop} (last : ∀ line, '\n' ∉ line → motive line)
    (more : ∀ line rest, '\n' ∉ line → motive rest → motive (line ++ '\n' :: rest))
    (text : List Char) : motive text := by
  induction hlength : text.length using Nat.strong_induction_on generalizing text with
  | _ n ih =>
      by_cases hmem : '\n' ∈ text
      · obtain ⟨line, rest, rfl, hline⟩ := List.eq_append_cons_of_mem hmem
        have hshorter : rest.length < n := by
          rw [← hlength, List.length_append, List.length_cons]
          omega
        exact more line rest hline (ih rest.length hshorter rest rfl)
      · exact last text hmem

/-- A character that ends no line stands in front of the first line. -/
theorem lines_cons {c : Char} {cs : List Char} (hnewline : c ≠ '\n')
    (hreturn : c = '\r' → '\n' ∉ cs.head?) : lines (c :: cs) = consLine c (lines cs) := by
  rw [lines]
  · rintro rest hc rfl
    exact hreturn hc rfl
  · exact hnewline

/-- A text without a newline is one line, if it is not empty. -/
theorem lines_of_newline_not_mem {line : List Char} (h : '\n' ∉ line) (hne : line ≠ []) :
    lines line = [line] := by
  induction line with
  | nil => exact absurd rfl hne
  | cons c cs ih =>
      rw [List.mem_cons, not_or] at h
      have hhead : '\n' ∉ cs.head? := fun hmem => h.2 (List.mem_of_mem_head? hmem)
      rw [lines_cons (Ne.symm h.1) fun _ => hhead]
      cases cs with
      | nil => rfl
      | cons c' cs =>
          rw [ih h.2 (List.cons_ne_nil _ _)]
          rfl

/-- A newline ends a line, and may take a carriage return with it. -/
theorem exists_lines_append_newline {line : List Char} (h : '\n' ∉ line) :
    ∃ line', (line = line' ∨ line = line' ++ ['\r']) ∧
      ∀ rest, lines (line ++ '\n' :: rest) = line' :: lines rest := by
  induction line with
  | nil => exact ⟨[], .inl rfl, fun rest => rfl⟩
  | cons c cs ih =>
      rw [List.mem_cons, not_or] at h
      obtain ⟨line', hline', hlines⟩ := ih h.2
      -- only a carriage return directly before the newline goes with it
      by_cases hreturn : c = '\r' ∧ cs = []
      · obtain ⟨rfl, rfl⟩ := hreturn
        exact ⟨[], .inr rfl, fun rest => rfl⟩
      · refine ⟨c :: line', ?_, ?_⟩
        · rcases hline' with rfl | rfl
          · exact .inl rfl
          · exact .inr rfl
        · intro rest
          have hhead : c = '\r' → '\n' ∉ (cs ++ '\n' :: rest).head? := by
            intro hc hmem
            cases cs with
            | nil => exact hreturn ⟨hc, rfl⟩
            | cons c' cs =>
                cases hmem
                exact h.2 List.mem_cons_self
          rw [List.cons_append, lines_cons (Ne.symm h.1) hhead, hlines]
          rfl

end Text

/-- A carriage return at the end of a line is not noticed. -/
theorem Token.isSilent_return : IsSilent ['\r'] where
  endsWord := endsWord_cons (by decide) []
  newline_not_mem := by decide
  significant_scan := by
    rw [scan_separator (by decide), scan_nil]
    rfl

/-- A carriage return at the end of a line is a blank and changes nothing. -/
theorem Value.parse_append_return (line : List Char) : parse (line ++ ['\r']) = parse line := by
  rw [parse, parse, Node.read_append_of_isSilent Token.isSilent_return]

/-! ### Sources one after the other -/

namespace Run

variable {bound : Nat} {scope : ScopeId} {run : Run}

/-- The lines of a run are taken one after the other. -/
theorem runLines_cons (line : List Char) (lines : List (List Char)) :
    run.runLines bound scope (line :: lines) =
      (run.runLine bound scope line).bind fun run => run.runLines bound scope lines := by
  rw [runLines]
  cases run.runLine bound scope line <;> rfl

/-- A line counts only for the program that it spells. -/
theorem runLine_congr {line line' : List Char} (h : Value.parse line' = Value.parse line) :
    run.runLine bound scope line' = run.runLine bound scope line := by
  simp only [runLine, Session.answerLine, Session.evalLine, h]

/-- An empty line leaves a run as it is. -/
theorem runLine_nil : run.runLine bound scope [] = some run := by
  have hread : Node.read [] = .error .empty :=
    Node.read_eq_error_empty_iff.2 (by rw [Token.scan_nil]; rfl)
  have hparse : Value.parse [] = .error (.unreadable .empty) := by
    rw [Value.parse, hread]
  have hanswer : Session.answerLine bound run.heap scope [] = some (none, run.heap) := by
    simp only [Session.answerLine, Session.evalLine, hparse]
    rfl
  unfold runLine
  split
  · rfl
  · rw [hanswer]

/-- A line that a newline may have taken a carriage return from is run as a source. -/
theorem runSource_line {line line' : List Char} (hline : '\n' ∉ line)
    (hline' : line = line' ∨ line = line' ++ ['\r']) :
    run.runSource bound scope line = run.runLine bound scope line' := by
  rw [runSource]
  by_cases hne : line = []
  · have hempty : line' = [] := by
      rcases hline' with rfl | rfl
      · exact hne
      · exact (List.append_eq_nil_iff.1 hne).1
    rw [hne, hempty, runLine_nil]
    rfl
  · have hparse : Value.parse line = Value.parse line' := by
      rcases hline' with rfl | rfl
      · rfl
      · exact Value.parse_append_return line'
    rw [Text.lines_of_newline_not_mem hline hne, runLines_cons, runLine_congr hparse]
    exact Option.bind_fun_some _

/-- A run over two texts with a newline between them is the run over the first and then that over the
second. -/
theorem runSource_append_newline (text rest : List Char) :
    run.runSource bound scope (text ++ '\n' :: rest) =
      (run.runSource bound scope text).bind fun run => run.runSource bound scope rest := by
  induction text using Text.induction_lines generalizing run with
  | last line hline =>
      obtain ⟨line', hline', hlines⟩ := Text.exists_lines_append_newline hline
      rw [runSource_line hline hline', runSource, hlines, runLines_cons]
      rfl
  | more line text hline ih =>
      obtain ⟨line', -, hlines⟩ := Text.exists_lines_append_newline hline
      have hstep (source : List Char) : run.runSource bound scope (line ++ '\n' :: source) =
          (run.runLine bound scope line').bind fun run => run.runSource bound scope source := by
        rw [runSource, hlines, runLines_cons]
        rfl
      rw [List.append_assoc, List.cons_append, hstep, hstep, Option.bind_assoc]
      simp only [ih]

/-- A run over texts with a newline between each two goes through them one after the other. -/
theorem runSource_intercalate (text : List Char) (texts : List (List Char)) :
    run.runSource bound scope (List.intercalate ['\n'] (text :: texts)) =
      (run.runSource bound scope text).bind fun run =>
        run.runSource bound scope (List.intercalate ['\n'] texts) := by
  cases texts with
  | nil =>
      rw [List.intercalate_singleton]
      exact (Option.bind_fun_some _).symm
  | cons text' texts =>
      rw [List.intercalate_cons_cons, List.append_assoc, List.singleton_append,
        runSource_append_newline]

/-- A run that has stopped is not changed by any source. -/
theorem runSource_of_stop {stop : Stop} (h : run.stop = some stop) (source : List Char) :
    run.runSource bound scope source = some run :=
  runLines_of_stop h _

/-! ### Files -/

/-- The texts of the files before the first that cannot be read. -/
def readableTexts (contents : String → Except FileFault (List Char)) (files : List String) :
    List (List Char) :=
  (files.takeWhile fun file => (contents file).isOk).filterMap fun file => (contents file).toOption

/-- The end that a file puts to a run, if it cannot be read. -/
def unreadable? (contents : String → Except FileFault (List Char)) (file : String) : Option Stop :=
  match contents file with
  | .ok _ => none
  | .error cause => some (.unreadable file cause)

/-- The end that the first file that cannot be read puts to a run, if there is one. -/
def firstUnreadable? (contents : String → Except FileFault (List Char)) (files : List String) :
    Option Stop :=
  files.findSome? (unreadable? contents)

variable {contents : String → Except FileFault (List Char)} {file : String} {files : List String}

/-- A file that can be read adds its text. -/
theorem readableTexts_of_ok {text : List Char} (h : contents file = .ok text) :
    readableTexts contents (file :: files) = text :: readableTexts contents files := by
  simp [readableTexts, h, Except.isOk, Except.toBool, Except.toOption]

/-- A file that cannot be read hides its successors. -/
theorem readableTexts_of_error {cause : FileFault} (h : contents file = .error cause) :
    readableTexts contents (file :: files) = [] := by
  simp [readableTexts, h, Except.isOk, Except.toBool]

/-- A file that can be read gives no reason to stop. -/
theorem unreadable?_of_ok {text : List Char} (h : contents file = .ok text) :
    unreadable? contents file = none := by
  rw [unreadable?, h]

/-- A file that cannot be read stops the run for its reason. -/
theorem unreadable?_of_error {cause : FileFault} (h : contents file = .error cause) :
    unreadable? contents file = some (.unreadable file cause) := by
  rw [unreadable?, h]

/-- The first unreadable file comes after a file that can be read. -/
theorem firstUnreadable?_of_ok {text : List Char} (h : contents file = .ok text) :
    firstUnreadable? contents (file :: files) = firstUnreadable? contents files := by
  rw [firstUnreadable?, List.findSome?_cons, unreadable?_of_ok h, firstUnreadable?]

/-- A file that cannot be read is the first such of any list that it heads. -/
theorem firstUnreadable?_of_error {cause : FileFault} (h : contents file = .error cause) :
    firstUnreadable? contents (file :: files) = some (.unreadable file cause) := by
  rw [firstUnreadable?, List.findSome?_cons, unreadable?_of_error h]

/-- The first file that cannot be read is the one with only files before it that can. -/
theorem firstUnreadable?_eq_some_iff {stop : Stop} :
    firstUnreadable? contents files = some stop ↔
      ∃ before file after cause, files = before ++ file :: after ∧
        (∀ other ∈ before, ∃ text, contents other = .ok text) ∧ contents file = .error cause ∧
        stop = .unreadable file cause := by
  rw [firstUnreadable?, List.findSome?_eq_some_iff]
  constructor
  · rintro ⟨before, file, after, rfl, hfile, hbefore⟩
    cases hcontents : contents file with
    | ok text =>
        rw [unreadable?_of_ok hcontents] at hfile
        cases hfile
    | error cause =>
        rw [unreadable?_of_error hcontents] at hfile
        refine ⟨before, file, after, cause, rfl, ?_, hcontents, (Option.some.inj hfile).symm⟩
        intro other hother
        cases hother' : contents other with
        | ok text => exact ⟨text, rfl⟩
        | error cause' =>
            have hnone := hbefore other hother
            rw [unreadable?_of_error hother'] at hnone
            cases hnone
  · rintro ⟨before, file, after, cause, rfl, hbefore, hfile, rfl⟩
    refine ⟨before, file, after, rfl, unreadable?_of_error hfile, ?_⟩
    intro other hother
    obtain ⟨text, htext⟩ := hbefore other hother
    exact unreadable?_of_ok htext

/-- A run over files is the run over their texts as one source, and then it ends because of the first
file that cannot be read, unless the sink has ended it. -/
theorem runFiles_eq (files : List String) :
    run.runFiles bound scope contents files =
      (run.runSource bound scope (List.intercalate ['\n'] (readableTexts contents files))).map
        fun run => { run with stop := run.stop.or (firstUnreadable? contents files) } := by
  induction files generalizing run with
  | nil =>
      show some run = some { run with stop := run.stop.or none }
      rw [Option.or_none]
  | cons file files ih =>
      unfold runFiles
      split
      · next stop hstop =>
          rw [runSource_of_stop hstop, Option.map_some, hstop, Option.some_or, ← hstop]
      · next hstop =>
          cases hfile : contents file with
          | error cause =>
              rw [readableTexts_of_error hfile, firstUnreadable?_of_error hfile]
              show _ = some { run with stop := run.stop.or _ }
              rw [hstop, Option.none_or]
          | ok text =>
              rw [readableTexts_of_ok hfile, firstUnreadable?_of_ok hfile, runSource_intercalate,
                Option.map_bind]
              cases htext : run.runSource bound scope text with
              | none => simp only [htext, Option.bind_none]
              | some run' => simp only [htext, Option.bind_some, Function.comp_apply, ih]

/-- A sink without a limit stops no run. -/
theorem stop_eq_none_of_runLines {heap : Heap} {written : List Char} {lines : List (List Char)}
    {run' : Run} (h : (unlimited heap written).runLines bound scope lines = some run') :
    run'.stop = none := by
  induction lines generalizing heap written with
  | nil =>
      cases h
      rfl
  | cons line lines ih =>
      rw [runLines_cons, runLine_unlimited] at h
      cases hanswer : Session.answerLine bound heap scope line with
      | none => simp [hanswer] at h
      | some out =>
          rw [hanswer] at h
          exact ih h

/-- If its sink has no limit, only a file that cannot be read ends a run over files early. -/
theorem runFiles_start (heap : Heap) (files : List String) :
    (start heap none).runFiles bound scope contents files =
      ((start heap none).runSource bound scope
        (List.intercalate ['\n'] (readableTexts contents files))).map
          fun run => { run with stop := firstUnreadable? contents files } := by
  rw [runFiles_eq]
  refine Option.map_congr fun run hrun => ?_
  rw [runSource_start] at hrun
  rw [stop_eq_none_of_runLines hrun, Option.none_or]

/-- **Running files one after the other is running their texts as one source.** A run over files whose
sink has no limit writes what the run over one source writes, from the same heap, and leaves the same
heap. The source is made of the texts of the files before the first that cannot be read, with a newline
between each two, however their lines end. The run over the files finishes when the lines of the source
do, and it ends with the complaint about the first file that cannot be read, exactly if there is one. -/
theorem files_run_as_one_source (heap : Heap) (scope : ScopeId)
    (contents : String → Except FileFault (List Char)) (files : List String) :
    let source := List.intercalate ['\n'] (readableTexts contents files)
    (∀ bound, (start heap none).runFiles bound scope contents files =
      ((start heap none).runSource bound scope source).map
        fun run => { run with stop := firstUnreadable? contents files }) ∧
    (∀ {heap' : Heap}, Session.Runs scope heap (Text.lines source) heap' →
      ∃ bound, ∀ bound', bound ≤ bound' →
        ∃ run, (start heap none).runFiles bound' scope contents files = some run ∧
          run.heap = heap') ∧
    ∀ {bound : Nat} {run : Run}, (start heap none).runFiles bound scope contents files = some run →
      ∀ stop, run.stop = some stop ↔
        ∃ before file after cause, files = before ++ file :: after ∧
          (∀ other ∈ before, ∃ text, contents other = .ok text) ∧
          contents file = .error cause ∧ stop = .unreadable file cause := by
  intro source
  refine ⟨fun bound => runFiles_start heap files, ?_, ?_⟩
  · intro heap' hruns
    obtain ⟨answers, hanswers⟩ := hruns.exists_answers
    obtain ⟨bound, hbound⟩ := runLines_of_answers hanswers
    refine ⟨bound, ?_⟩
    intro bound' hle
    rw [runFiles_start, runSource_start, hbound bound' hle]
    exact ⟨_, rfl, rfl⟩
  · intro bound run hrun stop
    rw [runFiles_start] at hrun
    obtain ⟨run', -, rfl⟩ := Option.map_eq_some_iff.1 hrun
    exact firstUnreadable?_eq_some_iff

section Sample

/-- Three files, of which the last is not reached. -/
def sampleContents (file : String) : Except FileFault (List Char) :=
  if file = "first" then .ok "def \x7bx\x7d 1\r".toList
  else if file = "second" then .ok "\r\nx ; (\r".toList
  else if file = "third" then .ok "def \x7bx\x7d 2".toList
  else .error .missing

/-- The heap after the first two files. -/
def sampleHeap : Heap := Heap.initial.define 0 "x" (.integer 1)

/-- A missing file ends the run after the output of the two files before it, and the file behind it
is not run. -/
theorem missing_file_ends_the_run :
    let source := "def \x7bx\x7d 1\r\n\r\nx ; (\r".toList
    List.intercalate ['\n'] (readableTexts sampleContents ["first", "second", "gone", "third"]) =
        source ∧
      Session.Runs 0 Heap.initial (Text.lines source) sampleHeap ∧
      ∃ bound run, (start Heap.initial none).runFiles bound 0 sampleContents
          ["first", "second", "gone", "third"] = some run ∧
        run.heap = sampleHeap ∧ run.sink.written = Text.encode "()\n1\n".toList ∧
        run.stop = some (.unreadable "gone" .missing) := by
  intro source
  have hsource : List.intercalate ['\n']
      (readableTexts sampleContents ["first", "second", "gone", "third"]) = source := by
    decide
  have hlines : Text.lines source = ["def \x7bx\x7d 1".toList, [], "x ; (\r".toList] := by
    decide
  have hdefine : Session.evalLine 1 Heap.initial 0 "def \x7bx\x7d 1".toList =
      some (.ok .unit, sampleHeap) := by cbv
  have hblank : Session.evalLine 0 sampleHeap 0 [] =
      some (.error (.unreadable .empty), sampleHeap) := by cbv
  have hvalue : Session.evalLine 1 sampleHeap 0 "x ; (\r".toList =
      some (.ok (.integer 1), sampleHeap) := by cbv
  have hruns : Session.Runs 0 Heap.initial (Text.lines source) sampleHeap := by
    rw [hlines]
    exact .cons hdefine (.cons hblank (.cons hvalue .nil))
  have hunit : Value.format .unit = "()".toList := by
    rw [Value.format_eq]
    cbv
  have hone : Value.format (.integer 1) = ['1'] := by
    rw [Value.format_eq]
    cbv
  have hanswers : Session.Answers 0 Heap.initial (Text.lines source)
      [some "()".toList, none, some ['1']] sampleHeap := by
    rw [hlines, ← hunit, ← hone]
    exact .cons (Session.answerLine_of_evalLine hdefine)
      (.cons (Session.answerLine_of_evalLine hblank)
        (.cons (Session.answerLine_of_evalLine hvalue) .nil))
  obtain ⟨hfiles, hfinishes, -⟩ := files_run_as_one_source Heap.initial 0 sampleContents
    ["first", "second", "gone", "third"]
  rw [hsource] at hfiles hfinishes
  obtain ⟨bound, hbound⟩ := hfinishes hruns
  obtain ⟨run, hrun, hheap⟩ := hbound bound le_rfl
  obtain ⟨run', hrun', rfl⟩ := Option.map_eq_some_iff.1 ((hfiles bound).symm.trans hrun)
  rw [runSource_start] at hrun'
  have hend := eq_of_runLines hanswers hrun'
  refine ⟨hsource, hruns, bound, _, hrun, hheap, ?_, ?_⟩
  · rw [hend]
    decide
  · show firstUnreadable? sampleContents ["first", "second", "gone", "third"] = _
    decide

end Sample

end Run

end QuoteLisp
