import QuoteLisp.Proofs.PrintedLines

/-!
# One answer for each line that is not blank

A line is blank when it has no tokens but comments. The reader finds exactly the blank lines empty, so
exactly these have no answer. Any other line has one, and it is a single line of text: a result of
evaluation, whose names are spelled as symbols after any lines before it, or a sentence of the reader,
which quotes at most one word of the line (`answerLine_spec`).

So the answers can be told apart in what a run writes. A sink without a limit takes them all, each with
a newline after it (`runLines_of_answers`), and what was written splits at its newlines into the answers
to the lines that are not blank.
-/

set_option autoImplicit false

namespace QuoteLisp

/-! ### Sentences of the reader -/

namespace Token

/-- The token of a bracket is no word. -/
theorem ne_word_of_ofBracket? {c : Char} {token : Token} {text : List Char}
    (h : ofBracket? c = some token) : token ≠ .word text := by
  rintro rfl
  unfold ofBracket? at h
  grind

/-- The words of a text are made of word characters. -/
theorem isWordChar_of_mem_scan {cs text : List Char} (h : .word text ∈ scan cs) :
    ∀ c ∈ text, isWordChar c = true := by
  fun_induction scan cs with
  | case1 => cases h
  | case2 c cs hsep ih => exact ih h
  | case3 c cs hsep token hbracket ih =>
      rcases List.mem_cons.1 h with heq | h
      · exact absurd heq.symm (ne_word_of_ofBracket? hbracket)
      · exact ih h
  | case4 cs hsep hbracket ih =>
      rcases List.mem_cons.1 h with heq | h
      · cases heq
      · exact ih h
  | case5 c cs hsep hbracket hmark ih =>
      rcases List.mem_cons.1 h with heq | h
      · cases heq
        have hc := isWordChar_of_not_isSeparator hsep hbracket hmark
        intro c' hc'
        rcases List.mem_cons.1 hc' with rfl | hc'
        · exact hc
        · exact List.mem_takeWhile_imp hc'
      · exact ih h

end Token

/-- Texts without newlines are without newlines when they are put together. -/
theorem newline_not_mem_append {s t : String} (hs : '\n' ∉ s.toList) (ht : '\n' ∉ t.toList) :
    '\n' ∉ (s ++ t).toList := by
  rw [String.toList_append, List.mem_append, not_or]
  exact ⟨hs, ht⟩

namespace Node

/-- A word that a pass refuses is one of the tokens. -/
theorem mem_of_firstEvent? {stack : List Bracket} {tokens : List Token} {word : String}
    (h : firstEvent? stack tokens = some (.badWord word)) : .word word.toList ∈ tokens := by
  fun_induction firstEvent? stack tokens with
  | case4 stack text tokens hnone =>
      cases h
      rw [String.toList_ofList]
      exact List.mem_cons_self
  | _ => simp_all

/-- The message of a read error is a single line: what it quotes of the text is a word. -/
theorem newline_not_mem_message_of_read {text : List Char} {cause : ReadError}
    (h : read text = .error cause) : '\n' ∉ cause.message.toList := by
  rcases read_eq_error_cases h with ⟨rfl, -⟩ | hevent
  · decide
  · cases cause with
    | untokenized failure => exact absurd hevent (firstEvent?_real.2 failure)
    | empty | unclosed => decide
    | unexpectedClose bracket => cases bracket <;> decide
    | mismatchedClose expected got => cases expected <;> cases got <;> decide
    | badWord word =>
        have hscan : .word word.toList ∈ Token.scan text :=
          (List.mem_filter.1 (mem_of_firstEvent? hevent)).1
        have hword := newline_not_mem_of_isWordChar (Token.isWordChar_of_mem_scan hscan)
        exact newline_not_mem_append (newline_not_mem_append (by decide) hword) (by decide)

end Node

/-! ### The answer to a line -/

namespace Session

/-- Whether a line has no tokens but comments. -/
def isBlank (line : List Char) : Bool :=
  match Token.tokenize line with
  | .ok tokens => tokens.all Token.isComment
  | .error _ => false

/-- A line is blank exactly when the reader finds it empty. -/
theorem isBlank_iff {line : List Char} :
    isBlank line = true ↔ Node.read line = .error .empty := by
  rw [Node.read_eq_error_empty_iff, isBlank, Token.tokenize_eq_ok_scan, Token.significant,
    List.filter_eq_nil_iff, List.all_eq_true]
  simp

variable {heap heap' heap'' : Heap} {scope : ScopeId} {line : List Char} {bound bound' : Nat}
  {answer answer' : Option (List Char)}

/-- Of the lines that cannot be read, only the empty ones get no answer. -/
theorem reply_unreadable_eq_none_iff {reason : ReadError} :
    reply (.error (.unreadable reason)) = none ↔ reason = .empty := by
  cases reason <;> simp [reply, InputError.isEmpty]

/-- A line is answered with the reply to what it comes to. -/
theorem answerLine_of_evalLine {result : Except InputError Value}
    (h : evalLine bound heap scope line = some (result, heap')) :
    answerLine bound heap scope line = some (reply result, heap') := by
  rw [answerLine, h]

/-- An answer is one line of text, and only a blank line has none. Names stay spelled as symbols. -/
theorem answerLine_spec (hheap : heap.AllParts Value.IsNamed)
    (h : answerLine bound heap scope line = some (answer, heap')) :
    (answer = none ↔ isBlank line = true) ∧ (∀ text, answer = some text → '\n' ∉ text) ∧
      heap'.AllParts Value.IsNamed := by
  unfold answerLine at h
  split at h
  · cases h
  · next result heap₁ hline =>
      cases h
      obtain ⟨hheap', hresult⟩ :=
        PartDiscipline.named.evalLine Value.allNamed_of_parse hheap hline
      -- A line that is not read is blank or answered with the reader's message; one that is read is
      -- answered with a printed value. Neither text has a newline.
      rcases evalLine_cases hline with ⟨cause, rfl, -, hparse⟩ | ⟨program, v, hparse, rfl, -⟩
      · obtain ⟨reason, rfl, hread⟩ := Value.parse_eq_error_iff.1 hparse
        refine ⟨?_, ?_, hheap'⟩
        · rw [reply_unreadable_eq_none_iff, isBlank_iff, hread]
          simp
        · intro text htext
          have hmessage := Node.newline_not_mem_message_of_read hread
          simp only [reply] at htext
          split at htext
          · cases htext
          · cases htext
            exact newline_not_mem_append (by decide) (newline_not_mem_append (by decide) hmessage)
      · obtain ⟨tree, hread, -⟩ := Value.exists_tree_of_parse hparse
        refine ⟨?_, ?_, hheap'⟩
        · rw [isBlank_iff, hread]
          simp [reply]
        · intro text htext
          cases htext
          exact Value.newline_not_mem_format (hresult v rfl)

/-! ### The bound -/

/-- A line has the same answer within every larger bound. -/
theorem answerLine_mono (hle : bound ≤ bound')
    (h : answerLine bound heap scope line = some (answer, heap')) :
    answerLine bound' heap scope line = some (answer, heap') := by
  unfold answerLine at h ⊢
  split at h
  · cases h
  · next result heap₁ hline =>
      rw [evalLine_mono hle hline]
      exact h

/-- Within whatever bounds a line is answered, it has one answer and leaves one heap. -/
theorem answerLine_unique (h : answerLine bound heap scope line = some (answer, heap'))
    (h' : answerLine bound' heap scope line = some (answer', heap'')) :
    answer' = answer ∧ heap'' = heap' := by
  have hmax := answerLine_mono (Nat.le_max_left bound bound') h
  rw [answerLine_mono (Nat.le_max_right bound bound') h'] at hmax
  exact Prod.mk.inj (Option.some.inj hmax)

/-! ### The answers to several lines -/

/-- Lines are answered in a scope one after the other, each in the heap that the lines before it left
and with a bound that is large enough. -/
inductive Answers (scope : ScopeId) :
    Heap → List (List Char) → List (Option (List Char)) → Heap → Prop where
  | nil {heap : Heap} : Answers scope heap [] [] heap
  | cons {heap heap₁ heap₂ : Heap} {bound : Nat} {line : List Char} {lines : List (List Char)}
      {answer : Option (List Char)} {answers : List (Option (List Char))} :
      answerLine bound heap scope line = some (answer, heap₁) →
      Answers scope heap₁ lines answers heap₂ →
      Answers scope heap (line :: lines) (answer :: answers) heap₂

variable {lines : List (List Char)} {answers : List (Option (List Char))}

/-- Every run over lines has its answers. -/
theorem Runs.exists_answers (h : Runs scope heap lines heap') :
    ∃ answers, Answers scope heap lines answers heap' := by
  induction h with
  | nil => exact ⟨[], .nil⟩
  | @cons heap heap₁ heap₂ bound line lines result hline _ ih =>
      obtain ⟨answers, hanswers⟩ := ih
      exact ⟨reply result :: answers, .cons (answerLine_of_evalLine hline) hanswers⟩

/-- Lines have one list of answers and leave one heap. -/
theorem Answers.unique {answers' : List (Option (List Char))}
    (h : Answers scope heap lines answers heap') (h' : Answers scope heap lines answers' heap'') :
    answers' = answers ∧ heap'' = heap' := by
  induction h generalizing answers' with
  | nil =>
      cases h'
      exact ⟨rfl, rfl⟩
  | cons hline _ ih =>
      cases h' with
      | cons hline' hlines' =>
          obtain ⟨rfl, rfl⟩ := answerLine_unique hline hline'
          obtain ⟨rfl, rfl⟩ := ih hlines'
          exact ⟨rfl, rfl⟩

/-- The answers that there are belong to the lines that are not blank, and are lines of text. -/
theorem Answers.reduceOption_spec (h : Answers scope heap lines answers heap')
    (hheap : heap.AllParts Value.IsNamed) :
    ((lines.zip answers).filter fun entry => !isBlank entry.1).map Prod.snd =
        answers.reduceOption.map some ∧
      ∀ text ∈ answers.reduceOption, '\n' ∉ text := by
  induction h with
  | nil => simp
  | @cons heap heap₁ heap₂ bound line lines answer answers hline _ ih =>
      obtain ⟨hblank, hnewline, hheap₁⟩ := answerLine_spec hheap hline
      obtain ⟨hentries, htexts⟩ := ih hheap₁
      cases answer with
      | none =>
          have hline' : isBlank line = true := hblank.1 rfl
          simpa [hline', hentries] using htexts
      | some text =>
          have hline' : isBlank line = false := by
            rw [← Bool.not_eq_true, ← hblank]
            simp
          have htext := hnewline text rfl
          simpa [hline', hentries, htext] using htexts

end Session

/-! ### What a run writes -/

namespace Text

/-- Lines of text, each with a newline after it, split at the newlines. -/
theorem splitOn_lines {texts : List (List Char)} (h : ∀ text ∈ texts, '\n' ∉ text) :
    (encode (texts.flatMap (· ++ ['\n']))).splitOn 0x0A = texts.map encode ++ [[]] := by
  induction texts with
  | nil => rfl
  | cons text texts ih =>
      have hbytes := newline_not_mem_encode (h text List.mem_cons_self)
      have htexts := ih fun text' hmem => h text' (List.mem_cons_of_mem _ hmem)
      have hencode : encode ((text :: texts).flatMap (· ++ ['\n'])) =
          encode text ++ 0x0A :: encode (texts.flatMap (· ++ ['\n'])) := by
        rw [List.flatMap_cons, encode_append, encode_append, List.append_assoc]
        rfl
      rw [hencode, List.splitOn_append_cons_self_of_not_mem hbytes, htexts]
      rfl

end Text

namespace Run

open Session (Answers answerLine)

/-- A run that nothing stops, after it has written a text. -/
def unlimited (heap : Heap) (written : List Char) : Run :=
  ⟨heap, ⟨Text.encode written, none⟩, none⟩

/-- What is written of an answer. -/
def shown (answer : Option (List Char)) : List Char :=
  answer.elim [] (· ++ ['\n'])

variable {heap heap' : Heap} {scope : ScopeId} {lines : List (List Char)}
  {answers : List (Option (List Char))} {bound : Nat}

/-- A line with an unlimited sink adds its answer and a newline, or nothing, to what was written. -/
theorem runLine_unlimited (written line : List Char) :
    (unlimited heap written).runLine bound scope line =
      (answerLine bound heap scope line).map fun (answer, heap') =>
        unlimited heap' (written ++ shown answer) := by
  simp only [runLine, unlimited]
  cases answerLine bound heap scope line with
  | none => rfl
  | some out =>
      obtain ⟨answer, heap'⟩ := out
      cases answer with
      | none => simp [shown]
      | some text => simp [shown, writeAnswer, Sink.writeAll, Sink.write]

/-- A run that has ended stays as it is. -/
theorem runLines_of_stop {run : Run} {stop : Stop} (h : run.stop = some stop)
    (lines : List (List Char)) : run.runLines bound scope lines = some run := by
  induction lines with
  | nil => rfl
  | cons line lines ih => simp only [runLines, runLine, h, ih]

/-- A run over a source is a run over its lines, with nothing written yet. -/
theorem runSource_start (source : List Char) :
    (start heap none).runSource bound scope source =
      (unlimited heap []).runLines bound scope (Text.lines source) := rfl

/-- A run over lines that are answered comes to the end and has written the answers. -/
theorem runLines_of_answers (h : Answers scope heap lines answers heap') :
    ∃ bound, ∀ bound', bound ≤ bound' → ∀ written,
      (unlimited heap written).runLines bound' scope lines =
        some (unlimited heap' (written ++ answers.flatMap shown)) := by
  induction h with
  | nil => exact ⟨0, fun bound' _ written => by simp [runLines]⟩
  | @cons heap heap₁ heap₂ bound line lines answer answers hline _ ih =>
      obtain ⟨bound₁, hlines⟩ := ih
      refine ⟨max bound bound₁, ?_⟩
      intro bound' hle written
      have hline' := Session.answerLine_mono (by omega : bound ≤ bound') hline
      have hlines' := hlines bound' (by omega) (written ++ shown answer)
      rw [runLines, runLine_unlimited, hline']
      simpa using hlines'

/-- However large its bound is, a run over lines that are answered that comes to an end comes to this
one. -/
theorem eq_of_runLines (h : Answers scope heap lines answers heap') {written : List Char}
    {run : Run} (hrun : (unlimited heap written).runLines bound scope lines = some run) :
    run = unlimited heap' (written ++ answers.flatMap shown) := by
  induction h generalizing written with
  | nil =>
      cases hrun
      simp
  | @cons heap heap₁ heap₂ bound₁ line lines answer answers hline _ ih =>
      rw [runLines, runLine_unlimited] at hrun
      cases hanswer : answerLine bound heap scope line with
      | none => simp [hanswer] at hrun
      | some out =>
          obtain ⟨answer', heap'⟩ := out
          obtain ⟨rfl, rfl⟩ := Session.answerLine_unique hline hanswer
          rw [hanswer] at hrun
          have hend := ih hrun
          simpa using hend

/-- What is written of some answers is each text among them with a newline. -/
theorem flatMap_shown (answers : List (Option (List Char))) :
    answers.flatMap shown = answers.reduceOption.flatMap (· ++ ['\n']) := by
  induction answers with
  | nil => rfl
  | cons answer answers ih => cases answer <;> simp [shown, ih]

end Run

/-- **Every line that is not blank has one line of output.** After any lines in the initial heap, a
line that finishes has no answer exactly when it has no tokens but comments, and an answer has no
newline. If all lines of a source finish, each is answered in the heap that the lines before it left,
and a run over the source whose sink has no limit comes to its end with every bound that is large
enough. What it has then written splits at its newlines into the answers to the lines that are not
blank, in order, with nothing after the last newline. -/
theorem one_answer_per_line {lines : List (List Char)} {heap : Heap}
    (hruns : Session.Runs Heap.globalId Heap.initial lines heap) :
    (∀ {bound : Nat} {line : List Char} {answer : Option (List Char)} {heap' : Heap},
      Session.answerLine bound heap Heap.globalId line = some (answer, heap') →
      (answer = none ↔ Session.isBlank line = true) ∧ ∀ text, answer = some text → '\n' ∉ text) ∧
    ∀ {source : List Char} {heap' : Heap},
      Session.Runs Heap.globalId heap (Text.lines source) heap' →
      ∃ (answers : List (Option (List Char))) (outputs : List (List Char)),
        Session.Answers Heap.globalId heap (Text.lines source) answers heap' ∧
        (((Text.lines source).zip answers).filter fun entry => !Session.isBlank entry.1).map
          Prod.snd = outputs.map some ∧
        (∃ bound, ∀ bound', bound ≤ bound' →
          ∃ run, (Run.start heap none).runSource bound' Heap.globalId source = some run) ∧
        ∀ {bound : Nat} {run : Run},
          (Run.start heap none).runSource bound Heap.globalId source = some run →
          run.heap = heap' ∧ run.stop = none ∧
            run.sink.written.splitOn 0x0A = outputs.map Text.encode ++ [[]] := by
  have hheap := PartDiscipline.named.runs Value.allNamed_of_parse
    (Heap.allParts_initial Value.IsNamed) hruns
  refine ⟨?_, ?_⟩
  · intro bound line answer heap' hline
    obtain ⟨hblank, hnewline, -⟩ := Session.answerLine_spec hheap hline
    exact ⟨hblank, hnewline⟩
  · intro source heap' hsource
    obtain ⟨answers, hanswers⟩ := hsource.exists_answers
    obtain ⟨houtputs, hnewline⟩ := hanswers.reduceOption_spec hheap
    refine ⟨answers, answers.reduceOption, hanswers, houtputs, ?_, ?_⟩
    · obtain ⟨bound, hbound⟩ := Run.runLines_of_answers hanswers
      refine ⟨bound, ?_⟩
      intro bound' hle
      rw [Run.runSource_start]
      exact ⟨_, hbound bound' hle []⟩
    · intro bound run hrun
      rw [Run.runSource_start] at hrun
      have hend : run = Run.unlimited heap' (answers.flatMap Run.shown) :=
        Run.eq_of_runLines hanswers hrun
      rw [hend, Run.flatMap_shown]
      exact ⟨rfl, rfl, Text.splitOn_lines hnewline⟩

section Sample

/-- A line that binds a number. -/
def fiveLine : List Char := "def \x7bx\x7d 5".toList

/-- The heap that binds the number. -/
def fiveHeap : Heap := Heap.initial.define 0 "x" (.integer 5)

/-- A source of three lines: one has a result, one is blank, and one cannot be read. -/
def threeLines : List Char := "x ; five\n\t;\n(a.b\n".toList

/-- A value with a comment behind it, a comment alone and a word of no class: two of the three lines
have output. -/
theorem three_lines_two_outputs :
    let unreadable := "Error: read error: unrecognised token 'a.b'".toList
    Session.Runs Heap.globalId Heap.initial [fiveLine] fiveHeap ∧
      Text.lines threeLines = ["x ; five".toList, "\t;".toList, "(a.b".toList] ∧
      Session.Runs Heap.globalId fiveHeap (Text.lines threeLines) fiveHeap ∧
      Session.answerLine 0 fiveHeap Heap.globalId "\t;".toList = some (none, fiveHeap) ∧
      Session.isBlank "\t;".toList = true ∧
      ∃ bound run, (Run.start fiveHeap none).runSource bound Heap.globalId threeLines = some run ∧
        run.sink.written.splitOn 0x0A = [Text.encode ['5'], Text.encode unreadable, []] := by
  intro unreadable
  have hfive : Session.evalLine 1 Heap.initial Heap.globalId fiveLine =
      some (.ok .unit, fiveHeap) := by cbv
  have hvalue : Session.evalLine 1 fiveHeap Heap.globalId "x ; five".toList =
      some (.ok (.integer 5), fiveHeap) := by cbv
  have hblank : Session.evalLine 0 fiveHeap Heap.globalId "\t;".toList =
      some (.error (.unreadable .empty), fiveHeap) := by cbv
  have hrefused : Session.evalLine 0 fiveHeap Heap.globalId "(a.b".toList =
      some (.error (.unreadable (.badWord "a.b")), fiveHeap) := by cbv
  have hformat : Value.format (.integer 5) = ['5'] := by
    rw [Value.format_eq]
    cbv
  have hvalue' : Session.answerLine 1 fiveHeap Heap.globalId "x ; five".toList =
      some (some ['5'], fiveHeap) := by
    rw [Session.answerLine, hvalue, ← hformat]
    rfl
  have hblank' : Session.answerLine 0 fiveHeap Heap.globalId "\t;".toList =
      some (none, fiveHeap) := by
    rw [Session.answerLine, hblank]
    rfl
  have hrefused' : Session.answerLine 0 fiveHeap Heap.globalId "(a.b".toList =
      some (some unreadable, fiveHeap) := by
    rw [Session.answerLine, hrefused]
    rfl
  have hlines : Text.lines threeLines = ["x ; five".toList, "\t;".toList, "(a.b".toList] := by
    decide
  have hruns : Session.Runs Heap.globalId Heap.initial [fiveLine] fiveHeap := .cons hfive .nil
  have hsource : Session.Runs Heap.globalId fiveHeap (Text.lines threeLines) fiveHeap := by
    rw [hlines]
    exact .cons hvalue (.cons hblank (.cons hrefused .nil))
  have hanswers : Session.Answers Heap.globalId fiveHeap (Text.lines threeLines)
      [some ['5'], none, some unreadable] fiveHeap := by
    rw [hlines]
    exact .cons hvalue' (.cons hblank' (.cons hrefused' .nil))
  obtain ⟨hanswer, hsources⟩ := one_answer_per_line hruns
  obtain ⟨answers, outputs, hanswers', houtputs, ⟨bound, hends⟩, hwritten⟩ := hsources hsource
  obtain ⟨rfl, -⟩ := hanswers.unique hanswers'
  have hentries : (((Text.lines threeLines).zip [some ['5'], none, some unreadable]).filter
      fun entry => !Session.isBlank entry.1).map Prod.snd = [['5'], unreadable].map some := by
    cbv
  obtain rfl : outputs = [['5'], unreadable] :=
    List.map_injective_iff.2 (Option.some_injective _) (houtputs.symm.trans hentries)
  obtain ⟨run, hrun⟩ := hends bound le_rfl
  exact ⟨hruns, hlines, hsource, hblank', (hanswer hblank').1.1 rfl, bound, run, hrun,
    (hwritten hrun).2.2⟩

end Sample

end QuoteLisp
