import QuoteLisp.Proofs.PrintedLines

/-!
# Printing into a buffer, byte by byte

`Value.renderInto` tells what a buffer holds after a value is printed into it. Here the same is done in
steps. A writer keeps the buffer and the number of bytes written, computes for each piece of the text
how many bytes there is room for, and copies that many; it stops at the first piece that does not fit.
The steps are checked: one that subtracts more than there is, or reaches beyond the buffer, has no
result.

`BoundedWriter.Holds` is the invariant: the writer has as much of the text as leaves place for the
closing zero, and the buffer is as it was behind that. So no step ever fails (`exists_write?`), and
however a text is cut into pieces, the writer leaves the buffer that `fillBuffer` tells
(`BoundedWriter.fill?_eq`).
-/

set_option autoImplicit false

namespace QuoteLisp

/-- A difference, where it is not negative. -/
def subtract? (m n : Nat) : Option Nat :=
  if n ≤ m then some (m - n) else none

/-- Puts bytes in the place of those from an index on, where the buffer has as many. -/
def overwrite? (buffer : List UInt8) (start : Nat) (bytes : List UInt8) : Option (List UInt8) :=
  if start + bytes.length ≤ buffer.length then
    some (buffer.take start ++ bytes ++ buffer.drop (start + bytes.length))
  else none

/-- A buffer into which so many bytes have been written. -/
structure BoundedWriter where
  buffer : List UInt8
  written : Nat

namespace BoundedWriter

/-- How many bytes there is room for before the closing zero. -/
def room? (writer : BoundedWriter) : Option Nat :=
  (subtract? writer.buffer.length 1).bind fun capacity => subtract? capacity writer.written

/-- Writes as much of a piece as there is room for, and tells whether that is all. -/
def write? (writer : BoundedWriter) (piece : List UInt8) : Option (BoundedWriter × Bool) :=
  writer.room?.bind fun room =>
    (overwrite? writer.buffer writer.written (piece.take (min piece.length room))).map fun buffer =>
      (⟨buffer, writer.written + min piece.length room⟩, piece.length ≤ room)

/-- Writes pieces one after the other up to the first that does not fit. -/
def writeAll? (writer : BoundedWriter) : List (List UInt8) → Option BoundedWriter
  | [] => some writer
  | piece :: pieces =>
      match writer.write? piece with
      | none => none
      | some (writer, true) => writer.writeAll? pieces
      | some (writer, false) => some writer

/-- Writes pieces and a zero to the front of a buffer, and tells how many bytes stand before the
zero. -/
def fill? (buffer : List UInt8) (pieces : List (List UInt8)) : Option (List UInt8 × Nat) :=
  if buffer.isEmpty then some (buffer, 0)
  else
    (writeAll? ⟨buffer, 0⟩ pieces).bind fun writer =>
      (overwrite? writer.buffer writer.written [0]).map fun buffer => (buffer, writer.written)

/-- A writer holds as much of a text as leaves place for a zero, and then what the buffer held. -/
structure Holds (buffer text : List UInt8) (writer : BoundedWriter) : Prop where
  written_eq : writer.written = min text.length (buffer.length - 1)
  buffer_eq : writer.buffer = text.take writer.written ++ buffer.drop writer.written

variable {buffer text piece : List UInt8} {writer : BoundedWriter} {pieces : List (List UInt8)}

/-- A writer that has written nothing holds no text. -/
theorem holds_nil (buffer : List UInt8) : Holds buffer [] ⟨buffer, 0⟩ :=
  ⟨(Nat.zero_min _).symm, rfl⟩

/-- A writer keeps the size of its buffer. -/
theorem Holds.length_buffer (h : Holds buffer text writer) :
    writer.buffer.length = buffer.length := by
  have hwritten := h.written_eq
  rw [h.buffer_eq, List.length_append, List.length_take, List.length_drop]
  omega

/-- A writer has room up to the last byte of its buffer, which it keeps for the end. -/
theorem Holds.room?_eq (h : Holds buffer text writer) (hbuffer : buffer ≠ []) :
    writer.room? = some (buffer.length - 1 - writer.written) := by
  have hwritten := h.written_eq
  have hone : 1 ≤ buffer.length := List.length_pos_iff.2 hbuffer
  have hle : writer.written ≤ buffer.length - 1 := by omega
  simp [room?, subtract?, h.length_buffer, hone, hle]

/-- Bytes that are written where the text ends go on with it. -/
theorem Holds.overwrite?_eq (h : Holds buffer text writer) (bytes : List UInt8)
    (hfits : writer.written + bytes.length ≤ buffer.length) :
    overwrite? writer.buffer writer.written bytes =
      some (text.take writer.written ++ bytes ++ buffer.drop (writer.written + bytes.length)) := by
  have hwritten := h.written_eq
  have hlength : (text.take writer.written).length = writer.written := by
    rw [List.length_take]
    omega
  have htake : writer.buffer.take writer.written = text.take writer.written := by
    rw [h.buffer_eq, List.take_left' hlength]
  have hdrop : writer.buffer.drop (writer.written + bytes.length) =
      buffer.drop (writer.written + bytes.length) := by
    rw [h.buffer_eq, ← List.drop_drop, List.drop_left' hlength, List.drop_drop]
  rw [overwrite?, h.length_buffer, if_pos hfits, htake, hdrop]

/-- A piece that comes after a text that fits goes on with it, and the writer tells whether it fits
too. -/
theorem exists_write? (h : Holds buffer text writer) (hbuffer : buffer ≠ [])
    (hfits : text.length ≤ buffer.length - 1) (piece : List UInt8) :
    ∃ writer', writer.write? piece =
        some (writer', decide ((text ++ piece).length ≤ buffer.length - 1)) ∧
      Holds buffer (text ++ piece) writer' := by
  have hwritten : writer.written = text.length := by
    rw [h.written_eq, Nat.min_eq_left hfits]
  have hroom := h.room?_eq hbuffer
  rw [hwritten] at hroom
  generalize hn : min piece.length (buffer.length - 1 - text.length) = n at *
  have hlength : (piece.take n).length = n := by
    rw [List.length_take]
    omega
  have hcopy := h.overwrite?_eq (piece.take n) (by omega)
  rw [hwritten, hlength, List.take_length] at hcopy
  refine ⟨⟨text ++ piece.take n ++ buffer.drop (text.length + n), text.length + n⟩, ?_, ?_, ?_⟩
  · have hfit : piece.length ≤ buffer.length - 1 - text.length ↔
        (text ++ piece).length ≤ buffer.length - 1 := by
      rw [List.length_append]
      omega
    simp only [write?, hroom, hwritten, hn, hcopy, Option.bind_some, Option.map_some, hfit]
  · show text.length + n = min (text ++ piece).length (buffer.length - 1)
    rw [List.length_append]
    omega
  · rw [List.take_length_add_append]

/-- A writer that is full holds as much of any longer text. -/
theorem Holds.append_of_full (h : Holds buffer text writer)
    (hfull : buffer.length - 1 ≤ text.length) (more : List UInt8) :
    Holds buffer (text ++ more) writer where
  written_eq := by
    rw [h.written_eq, List.length_append]
    omega
  buffer_eq := by
    have hle : writer.written ≤ text.length := by
      rw [h.written_eq]
      exact Nat.min_le_left _ _
    rw [List.take_append_of_le_length hle]
    exact h.buffer_eq

/-- Whatever the pieces are, all of them are written or the writer is full. -/
theorem exists_writeAll? (h : Holds buffer text writer) (hbuffer : buffer ≠ [])
    (hfits : text.length ≤ buffer.length - 1) (pieces : List (List UInt8)) :
    ∃ writer', writer.writeAll? pieces = some writer' ∧
      Holds buffer (text ++ pieces.flatten) writer' := by
  induction pieces generalizing text writer with
  | nil =>
      rw [List.flatten_nil, List.append_nil]
      exact ⟨writer, rfl, h⟩
  | cons piece pieces ih =>
      obtain ⟨writer', hwrite, h'⟩ := exists_write? h hbuffer hfits piece
      rw [List.flatten_cons, ← List.append_assoc]
      by_cases hfits' : (text ++ piece).length ≤ buffer.length - 1
      · obtain ⟨writer'', hrest, h''⟩ := ih h' hfits'
        refine ⟨writer'', ?_, h''⟩
        simp only [writeAll?, hwrite, hfits', decide_true, hrest]
      -- the writer stops, and what it holds it would hold of the other pieces too
      · refine ⟨writer', ?_, h'.append_of_full (by omega) pieces.flatten⟩
        simp only [writeAll?, hwrite, hfits', decide_false]

end BoundedWriter

/-- A buffer after a text has been printed into it: so many bytes of the text, as many as leave place
for a zero, then the zero, and then what was there before. -/
structure IsTruncatedCopy (buffer text out : List UInt8) (n : Nat) : Prop where
  count_eq : n = min text.length (buffer.length - 1)
  length_eq : out.length = buffer.length
  front : out.take n = text.take n
  zero : out[n]? = some 0
  rest : ∀ i, n < i → out[i]? = buffer[i]?

variable {buffer : List UInt8} {pieces : List (List UInt8)}

/-- What a buffer holds in the end is told by all pieces together. -/
theorem fillBuffer_eq (hbuffer : buffer ≠ []) {n : Nat}
    (hn : n = min pieces.flatten.length (buffer.length - 1)) :
    fillBuffer buffer pieces = (pieces.flatten.take n ++ 0 :: buffer.drop (n + 1), n) := by
  have hempty : ¬ buffer.isEmpty = true := by simpa using hbuffer
  have htake : pieces.flatten.take (buffer.length - 1) = pieces.flatten.take n := by
    rw [List.take_eq_take_iff]
    omega
  have hlength : (pieces.flatten.take n).length = n := by
    rw [List.length_take]
    omega
  simp only [fillBuffer, if_neg hempty, Sink.fresh, Sink.written_writeAll, List.nil_append, htake,
    hlength]

/-- What a buffer holds does not depend on how the text is cut into pieces. -/
theorem fillBuffer_congr {pieces' : List (List UInt8)} (h : pieces.flatten = pieces'.flatten) :
    fillBuffer buffer pieces = fillBuffer buffer pieces' := by
  by_cases hbuffer : buffer = []
  · simp [hbuffer, fillBuffer]
  · rw [fillBuffer_eq hbuffer rfl, fillBuffer_eq hbuffer rfl, h]

/-- A buffer with room for at least the end is filled with a truncated copy of the pieces. -/
theorem isTruncatedCopy_fillBuffer (hbuffer : buffer ≠ []) (pieces : List (List UInt8)) :
    IsTruncatedCopy buffer pieces.flatten (fillBuffer buffer pieces).1
      (fillBuffer buffer pieces).2 := by
  have hpos := List.length_pos_iff.2 hbuffer
  generalize hn : min pieces.flatten.length (buffer.length - 1) = n
  have hlength : (pieces.flatten.take n).length = n := by
    rw [List.length_take]
    omega
  rw [fillBuffer_eq hbuffer hn.symm]
  refine ⟨hn.symm, ?_, ?_, ?_, ?_⟩
  · rw [List.length_append, hlength, List.length_cons, List.length_drop]
    omega
  · exact List.take_left' hlength
  · rw [List.getElem?_append_right (Nat.le_of_eq hlength), hlength, Nat.sub_self]
    rfl
  · intro i hi
    obtain ⟨k, rfl⟩ := Nat.exists_eq_add_of_lt hi
    have hindex : n + k + 1 - n = k + 1 := by omega
    rw [List.getElem?_append_right (by omega), hlength, hindex, List.getElem?_cons_succ,
      List.getElem?_drop, Nat.add_right_comm]

/-- The writer never fails, and it leaves the buffer that `fillBuffer` tells. -/
theorem BoundedWriter.fill?_eq (buffer : List UInt8) (pieces : List (List UInt8)) :
    fill? buffer pieces = some (fillBuffer buffer pieces) := by
  by_cases hbuffer : buffer = []
  · simp [hbuffer, fill?, fillBuffer]
  · have hpos := List.length_pos_iff.2 hbuffer
    have hempty : ¬ buffer.isEmpty = true := by simpa using hbuffer
    obtain ⟨writer, hwrite, h⟩ :=
      exists_writeAll? (holds_nil buffer) hbuffer (Nat.zero_le _) pieces
    rw [List.nil_append] at h
    have hwritten := h.written_eq
    have hzero := h.overwrite?_eq [0] (by rw [List.length_singleton]; omega)
    simp only [fill?, if_neg hempty, hwrite, hzero, Option.bind_some, Option.map_some,
      fillBuffer_eq hbuffer hwritten]
    simp

namespace Value

/-- The pieces of a value, encoded one by one, are the bytes of its text. -/
theorem flatten_encode_pieces (v : Value) :
    (v.pieces.map Text.encode).flatten = Text.bytes v.text := by
  rw [flatten_map_encode, flatten_pieces, bytes_text]

/-- **Printing into a buffer makes an exact copy, cut to the room there is.** A buffer without any room
is left alone. Every other one has in front as many bytes of the printed form as leave place for a zero,
then the zero, and then what it had there before. However the bytes of the printed form come in pieces,
even empty ones, a writer that stops at the first piece that does not fit leaves just this buffer, and
never subtracts more than there is or reaches beyond the buffer. -/
theorem printing_copies_what_fits (buffer : List UInt8) (v : Value) :
    (∀ {pieces : List (List UInt8)}, pieces.flatten = Text.bytes v.text →
      BoundedWriter.fill? buffer pieces = some (v.renderInto buffer)) ∧
    (buffer = [] → v.renderInto buffer = ([], 0)) ∧
    (buffer ≠ [] → IsTruncatedCopy buffer (Text.bytes v.text) (v.renderInto buffer).1
      (v.renderInto buffer).2) := by
  rw [renderInto]
  refine ⟨?_, ?_, ?_⟩
  · intro pieces hpieces
    rw [BoundedWriter.fill?_eq, fillBuffer_congr (hpieces.trans v.flatten_encode_pieces.symm)]
  · rintro rfl
    rfl
  · intro hbuffer
    rw [← flatten_encode_pieces]
    exact isTruncatedCopy_fillBuffer hbuffer _

/-- A buffer of six bytes has room for five, which end inside a character of two. It makes no
difference that the text comes in pieces of which one is empty and the next does not fit. -/
theorem print_cut_inside_a_character :
    let v : Value := .qexpr [.integer 12, .symbol "é"]
    let buffer : List UInt8 := List.replicate 6 0x7A
    let pieces : List (List UInt8) := [[0x7B], [], [0x31, 0x32, 0x20, 0xC3, 0xA9], [0x7D]]
    pieces.flatten = Text.bytes v.text ∧ buffer ≠ [] ∧
      BoundedWriter.fill? buffer pieces = some (v.renderInto buffer) ∧
      v.renderInto buffer = ([0x7B, 0x31, 0x32, 0x20, 0xC3, 0x00], 5) ∧
      IsTruncatedCopy buffer pieces.flatten [0x7B, 0x31, 0x32, 0x20, 0xC3, 0x00] 5 := by
  intro v buffer pieces
  have hpieces : pieces.flatten = Text.bytes v.text := by cbv
  have hbuffer : buffer ≠ [] := by decide
  obtain ⟨hfill, -, hcopy⟩ := printing_copies_what_fits buffer v
  have hrun : BoundedWriter.fill? buffer pieces =
      some ([0x7B, 0x31, 0x32, 0x20, 0xC3, 0x00], 5) := by decide
  have hprint : v.renderInto buffer = ([0x7B, 0x31, 0x32, 0x20, 0xC3, 0x00], 5) :=
    Option.some.inj ((hfill hpieces).symm.trans hrun)
  have hcut := hcopy hbuffer
  rw [hprint, ← hpieces] at hcut
  exact ⟨hpieces, hbuffer, hfill hpieces, hprint, hcut⟩

end Value

end QuoteLisp
