import QuoteLisp.Proofs.Answers

/-!
# Runs into a full sink

A line is evaluated before its answer is written, so a sink that has no room for the answer stops the
run after that line and not before it. What was written up to there is the beginning of all that the
run would have written: an answer and its newline fit as a whole (`runLine_of_fits`), or fill the sink
and stop the run (`runLine_of_overflow`), and a run that has stopped looks at no line after that.
-/

set_option autoImplicit false

namespace QuoteLisp.Run

open Session (Answers answerLine)

/-- The bytes that are written of some answers. -/
def output (answers : List (Option (List Char))) : List UInt8 :=
  Text.encode (answers.flatMap shown)

/-- No answers write nothing. -/
@[simp]
theorem output_nil : output [] = [] := by
  simp [output]

/-- The first answer is written in front of the others. -/
@[simp]
theorem output_cons (answer : Option (List Char)) (answers : List (Option (List Char))) :
    output (answer :: answers) = Text.encode (shown answer) ++ output answers := by
  simp [output]

/-- A run that goes on, with these bytes in its sink and room for so many more. -/
def limited (heap : Heap) (written : List UInt8) (room : Nat) : Run :=
  ⟨heap, ⟨written, some room⟩, none⟩

/-- A run that was stopped by its sink, which these bytes fill. -/
def full (heap : Heap) (written : List UInt8) : Run :=
  ⟨heap, ⟨written, some 0⟩, some .sinkFull⟩

/-- A run over a source ends like this, with every bound that is large enough. -/
def ComesTo (run : Run) (scope : ScopeId) (source : List Char) (run' : Run) : Prop :=
  ∃ bound, ∀ bound', bound ≤ bound' → run.runSource bound' scope source = some run'

/-- Of these answers, the one to line `j`, counted from zero, is the first that a sink of this room
does not take. -/
structure OverflowsAt (answers : List (Option (List Char))) (room j : Nat) : Prop where
  fits : ∀ i ≤ j, (output (answers.take i)).length ≤ room
  overflows : room < (output (answers.take (j + 1))).length

variable {heap heap' : Heap} {scope : ScopeId} {line : List Char} {lines : List (List Char)}
  {answer : Option (List Char)} {answers : List (Option (List Char))} {bound room : Nat}
  {written : List UInt8}

/-! ### One line -/

/-- An answer and its newline fit as a whole, or they fill the sink. -/
theorem writeAnswer_limited (text : List Char) :
    writeAnswer heap ⟨written, some room⟩ text =
      if (Text.encode (shown (some text))).length ≤ room then
        limited heap (written ++ Text.encode (shown (some text)))
          (room - (Text.encode (shown (some text))).length)
      else full heap (written ++ (Text.encode (shown (some text))).take room) := by
  have hflatten : [Text.encode text, Text.encode ['\n']].flatten =
      Text.encode (shown (some text)) := by
    simp [shown]
  rw [writeAnswer, Sink.writeAll_some, hflatten]
  split
  · next hfits =>
      have hfits' := of_decide_eq_true (Prod.mk.inj hfits).2
      rw [if_pos hfits', ← (Prod.mk.inj hfits).1, List.take_of_length_le hfits', limited]
  · next hover =>
      have hover' := of_decide_eq_false (Prod.mk.inj hover).2
      have hroom : room - (Text.encode (shown (some text))).length = 0 := by omega
      rw [if_neg hover', ← (Prod.mk.inj hover).1, hroom, full]

/-- The answer to a line is written to a limited sink after the line has changed the heap. -/
theorem runLine_limited {text : List Char}
    (hline : answerLine bound heap scope line = some (some text, heap')) :
    (limited heap written room).runLine bound scope line =
      some (writeAnswer heap' ⟨written, some room⟩ text) := by
  simp [runLine, limited, hline]

/-- An answer that fits is written as a whole, and the run goes on. -/
theorem runLine_of_fits (hline : answerLine bound heap scope line = some (answer, heap'))
    (hfits : (Text.encode (shown answer)).length ≤ room) (written : List UInt8) :
    (limited heap written room).runLine bound scope line =
      some (limited heap' (written ++ Text.encode (shown answer))
        (room - (Text.encode (shown answer)).length)) := by
  cases answer with
  | none => simp [runLine, limited, hline, shown]
  | some text => rw [runLine_limited hline, writeAnswer_limited, if_pos hfits]

/-- An answer that does not fit fills the sink and stops the run, in the heap that its line left. -/
theorem runLine_of_overflow (hline : answerLine bound heap scope line = some (answer, heap'))
    (hover : room < (Text.encode (shown answer)).length) (written : List UInt8) :
    (limited heap written room).runLine bound scope line =
      some (full heap' (written ++ (Text.encode (shown answer)).take room)) := by
  cases answer with
  | none => simp [shown] at hover
  | some text =>
      rw [runLine_limited hline, writeAnswer_limited, if_neg (Nat.not_le_of_lt hover)]

/-! ### Several lines -/

/-- A first answer that does not fit is the first that does not. -/
theorem OverflowsAt.zero (hover : room < (Text.encode (shown answer)).length) :
    OverflowsAt (answer :: answers) room 0 where
  fits := by
    intro i hi
    rw [Nat.le_zero.1 hi]
    exact Nat.zero_le room
  overflows := by simpa using hover

/-- The first answer that does not fit comes later if an answer that fits is put before all. -/
theorem OverflowsAt.succ {j : Nat} (hfits : (Text.encode (shown answer)).length ≤ room)
    (h : OverflowsAt answers (room - (Text.encode (shown answer)).length) j) :
    OverflowsAt (answer :: answers) room (j + 1) where
  fits := by
    intro i hi
    cases i with
    | zero => exact Nat.zero_le room
    | succ i =>
        have hi' := h.fits i (Nat.le_of_succ_le_succ hi)
        rw [List.take_succ_cons, output_cons, List.length_append]
        omega
  overflows := by
    have hover := h.overflows
    rw [List.take_succ_cons, output_cons, List.length_append]
    omega

/-- A run whose answers all fit writes them all. -/
theorem runLines_of_fits (h : Answers scope heap lines answers heap')
    (hfits : (output answers).length ≤ room) :
    ∃ bound, ∀ bound', bound ≤ bound' → ∀ written,
      (limited heap written room).runLines bound' scope lines =
        some (limited heap' (written ++ output answers) (room - (output answers).length)) := by
  induction h generalizing room with
  | nil => exact ⟨0, fun bound' _ written => by simp [runLines]⟩
  | @cons heap heap₁ heap₂ bound line lines answer answers hline _ ih =>
      rw [output_cons, List.length_append] at hfits
      obtain ⟨bound₁, hlines⟩ :=
        ih (by omega : (output answers).length ≤ room - (Text.encode (shown answer)).length)
      refine ⟨max bound bound₁, ?_⟩
      intro bound' hle written
      have hline' := Session.answerLine_mono (by omega : bound ≤ bound') hline
      rw [runLines, runLine_of_fits hline' (by omega)]
      simp only [hlines bound' (by omega), output_cons, List.length_append, List.append_assoc,
        Nat.sub_sub]

/-- A run whose answers do not all fit ends with the first that does not, whatever lines come after
these. -/
theorem runLines_of_overflow (h : Answers scope heap lines answers heap')
    (hover : room < (output answers).length) :
    ∃ j heap₁, j < lines.length ∧ OverflowsAt answers room j ∧
      Answers scope heap (lines.take (j + 1)) (answers.take (j + 1)) heap₁ ∧
      ∃ bound, ∀ bound', bound ≤ bound' → ∀ written later,
        (limited heap written room).runLines bound' scope (lines ++ later) =
          some (full heap₁ (written ++ (output answers).take room)) := by
  induction h generalizing room with
  | nil => simp at hover
  | @cons heap heap₁ heap₂ bound line lines answer answers hline _ ih =>
      by_cases hfits : (Text.encode (shown answer)).length ≤ room
      · rw [output_cons, List.length_append] at hover
        obtain ⟨j, heap₃, hj, hat, hanswers, bound₁, hlines⟩ :=
          ih (by omega : room - (Text.encode (shown answer)).length < (output answers).length)
        refine ⟨j + 1, heap₃, Nat.succ_lt_succ hj, hat.succ hfits, .cons hline hanswers,
          max bound bound₁, ?_⟩
        intro bound' hle written later
        have hline' := Session.answerLine_mono (by omega : bound ≤ bound') hline
        rw [List.cons_append, runLines, runLine_of_fits hline' hfits]
        simp only [hlines bound' (by omega), output_cons, List.take_append,
          List.take_of_length_le hfits, List.append_assoc]
      · have hover' : room < (Text.encode (shown answer)).length := Nat.lt_of_not_le hfits
        refine ⟨0, heap₁, Nat.succ_pos _, .zero hover', .cons hline .nil, bound, ?_⟩
        intro bound' hle written later
        have hline' := Session.answerLine_mono hle hline
        have hroom : room - (Text.encode (shown answer)).length = 0 := by omega
        rw [List.cons_append, runLines, runLine_of_overflow hline' hover']
        simp only [runLines_of_stop (rfl : (full heap₁ _).stop = some .sinkFull), output_cons,
          List.take_append, hroom, List.take_zero, List.append_nil]

/-- **A full sink cuts the output to its beginning and stops the run at that line.** Let the first
lines of a source be answered one after the other, each in the heap that the lines before it left. If
these are all lines and their answers fit, each with its newline, the run comes to its end and has
written them. If they do not fit, the run ends with an error of the sink, which holds as many of their
first bytes as it has room for, and the heap is that after the first line whose answer did not fit.
The lines after these are not evaluated then: they may be any, and need not even finish. -/
theorem full_sink_stops_run_at_its_line {source : List Char} {later : List (List Char)}
    (hsource : Text.lines source = lines ++ later)
    (hanswers : Answers scope heap lines answers heap') (room : Nat) :
    (later = [] → (output answers).length ≤ room →
      (start heap (some room)).ComesTo scope source
        ⟨heap', ⟨output answers, some (room - (output answers).length)⟩, none⟩) ∧
    (room < (output answers).length →
      ∃ j heap₁, j < lines.length ∧ OverflowsAt answers room j ∧
        Answers scope heap (lines.take (j + 1)) (answers.take (j + 1)) heap₁ ∧
        (start heap (some room)).ComesTo scope source
          ⟨heap₁, ⟨(output answers).take room, some 0⟩, some .sinkFull⟩) := by
  refine ⟨?_, ?_⟩
  · intro hlater hfits
    obtain ⟨bound, hlines⟩ := runLines_of_fits hanswers hfits
    refine ⟨bound, ?_⟩
    intro bound' hle
    rw [runSource, hsource, hlater, List.append_nil]
    exact hlines bound' hle []
  · intro hover
    obtain ⟨j, heap₁, hj, hat, hevaluated, bound, hlines⟩ := runLines_of_overflow hanswers hover
    refine ⟨j, heap₁, hj, hat, hevaluated, bound, ?_⟩
    intro bound' hle
    rw [runSource, hsource]
    exact hlines bound' hle [] later

section Sample

/-- Three lines: a number, a word that cannot be read, and a definition. -/
def accentedLines : List Char := "1\né\ndef \x7bx\x7d 1".toList

/-- The answers to the first two lines. -/
def accentedAnswers : List (Option (List Char)) :=
  [some ['1'], some "Error: read error: unrecognised token 'é'".toList]

/-- A sink that fills up inside a character keeps the bytes before, and the definition in the next
line is not run. -/
theorem sink_full_inside_a_character :
    Text.lines accentedLines = ["1".toList, "é".toList] ++ ["def \x7bx\x7d 1".toList] ∧
      Answers 0 Heap.initial ["1".toList, "é".toList] accentedAnswers Heap.initial ∧
      (output accentedAnswers).take 42 = output [some ['1']] ++
        Text.encode "Error: read error: unrecognised token '".toList ++ [0xC3] ∧
      (start Heap.initial (some 42)).ComesTo 0 accentedLines
        ⟨Heap.initial, ⟨(output accentedAnswers).take 42, some 0⟩, some .sinkFull⟩ := by
  have hlines : Text.lines accentedLines =
      ["1".toList, "é".toList] ++ ["def \x7bx\x7d 1".toList] := by
    decide
  have hformat : Value.format (.integer 1) = ['1'] := by
    rw [Value.format_eq]
    cbv
  have hnumber : Session.evalLine 1 Heap.initial 0 "1".toList =
      some (.ok (.integer 1), Heap.initial) := by cbv
  have hrefused : Session.evalLine 0 Heap.initial 0 "é".toList =
      some (.error (.unreadable (.badWord "é")), Heap.initial) := by cbv
  have hanswers : Answers 0 Heap.initial ["1".toList, "é".toList] accentedAnswers Heap.initial := by
    rw [accentedAnswers, ← hformat]
    exact .cons (Session.answerLine_of_evalLine hnumber)
      (.cons (Session.answerLine_of_evalLine hrefused) .nil)
  have hcut : (output accentedAnswers).take 42 = output [some ['1']] ++
      Text.encode "Error: read error: unrecognised token '".toList ++ [0xC3] := by
    decide
  obtain ⟨j, heap₁, hj, hat, hevaluated, hend⟩ :=
    (full_sink_stops_run_at_its_line hlines hanswers 42).2 (by decide)
  -- the first answer fits, so the second is the one that does not
  have hj' : j = 1 := by
    have hfirst : j ≠ 0 := by
      rintro rfl
      exact absurd hat.overflows (by decide)
    have hj₂ : j < 2 := hj
    omega
  subst hj'
  obtain ⟨-, rfl⟩ := hanswers.unique hevaluated
  exact ⟨hlines, hanswers, hcut, hend⟩

end Sample

end QuoteLisp.Run
