import QuoteLisp.Sink
import QuoteLisp.Text.Utf8
import QuoteLisp.Value.Text

/-!
# Printing a value into a buffer

`Value.renderInto` writes as much of the printed form as leaves place for a closing zero byte, and
leaves the rest of the buffer alone. `Value.format` is the printed form as results are shown, cut to
what a buffer of `outputCapacity` bytes holds.
-/

set_option autoImplicit false

namespace QuoteLisp

/-- Writes pieces and a zero byte to the front of a buffer, and tells how many bytes stand before the
zero. Pieces that do not fit are cut; a buffer without room for the zero is left alone. -/
def fillBuffer (buffer : List UInt8) (pieces : List (List UInt8)) : List UInt8 × Nat :=
  if buffer.isEmpty then (buffer, 0)
  else
    let sink := ((Sink.fresh (some (buffer.length - 1))).writeAll pieces).1
    (sink.written ++ 0 :: buffer.drop (sink.written.length + 1), sink.written.length)

namespace Value

/-- Prints a value into a buffer. -/
def renderInto (buffer : List UInt8) (v : Value) : List UInt8 × Nat :=
  fillBuffer buffer (v.pieces.map Text.encode)

/-- The size of the buffer that results are printed into. -/
def outputCapacity : Nat := 4096

/-- The printed form of a result. A character that the end of the buffer cuts is replaced. -/
def format (v : Value) : List Char :=
  let (buffer, written) := v.renderInto (List.replicate outputCapacity 0)
  Text.decodeLossy (buffer.take written)

end Value

end QuoteLisp
