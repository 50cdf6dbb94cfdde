/-!
# Sinks of bounded room

A sink keeps the bytes that fit and refuses the rest: a write that does not fit fills the sink and
fails, and nothing is written after it. However a text is cut into pieces, a sink ends up with as
much of its beginning as fits, and fails exactly when that is not all (`writeAll_some`).
-/

set_option autoImplicit false

namespace QuoteLisp

/-- What has been written, and how many bytes still fit; no number means that all do. -/
structure Sink where
  written : List UInt8
  room : Option Nat
  deriving DecidableEq, Repr

namespace Sink

/-- A sink with nothing in it. -/
def fresh (room : Option Nat) : Sink := ⟨[], room⟩

/-- Writes bytes, and tells whether all of them fitted. -/
def write (sink : Sink) (bytes : List UInt8) : Sink × Bool :=
  match sink.room with
  | none => (⟨sink.written ++ bytes, none⟩, true)
  | some room =>
      (⟨sink.written ++ bytes.take room, some (room - bytes.length)⟩, bytes.length ≤ room)

/-- Writes pieces one after the other up to the first that does not fit. -/
def writeAll (sink : Sink) : List (List UInt8) → Sink × Bool
  | [] => (sink, true)
  | piece :: pieces =>
      match sink.write piece with
      | (sink, true) => writeAll sink pieces
      | (sink, false) => (sink, false)

/-- A sink takes as much as fits of all the pieces together, loses the room that they need, and is
content exactly when they fit. -/
theorem writeAll_some (written : List UInt8) (room : Nat) (pieces : List (List UInt8)) :
    (⟨written, some room⟩ : Sink).writeAll pieces =
      (⟨written ++ pieces.flatten.take room, some (room - pieces.flatten.length)⟩,
        decide (pieces.flatten.length ≤ room)) := by
  induction pieces generalizing written room with
  | nil => simp [writeAll]
  | cons piece pieces ih =>
      simp only [writeAll, write, List.flatten_cons, List.take_append, List.length_append]
      by_cases hfit : piece.length ≤ room
      · have htake : piece.take room = piece := List.take_of_length_le hfit
        have hroom : room - piece.length - pieces.flatten.length =
            room - (piece.length + pieces.flatten.length) := Nat.sub_sub ..
        have hfits : pieces.flatten.length ≤ room - piece.length ↔
            piece.length + pieces.flatten.length ≤ room := by omega
        simp only [hfit, decide_true, ih, htake, hroom, hfits, List.append_assoc]
      · have hroom : room - piece.length = 0 := by omega
        have hroom' : room - (piece.length + pieces.flatten.length) = 0 := by omega
        have hfits : ¬ piece.length + pieces.flatten.length ≤ room := by omega
        simp only [hfit, decide_false, hroom, hroom', hfits, List.take_zero, List.append_nil]

/-- A sink holds what it held and then as much as fits of all the pieces together. -/
theorem written_writeAll (written : List UInt8) (room : Nat) (pieces : List (List UInt8)) :
    ((⟨written, some room⟩ : Sink).writeAll pieces).1.written =
      written ++ pieces.flatten.take room := by
  rw [writeAll_some]

end Sink

end QuoteLisp
