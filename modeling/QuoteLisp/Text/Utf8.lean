/-!
# UTF-8

`encode` is the byte form of a text. `decodeLossy` reads any bytes at all: each maximal beginning of
a well-formed sequence that is not completed, and each byte that begins none, becomes one
replacement character.
-/

set_option autoImplicit false

namespace QuoteLisp.Text

/-- The UTF-8 bytes of a text. -/
def encode (cs : List Char) : List UInt8 :=
  cs.flatMap String.utf8EncodeChar

/-- The empty text has no bytes. -/
@[simp]
theorem encode_nil : encode [] = [] := rfl

/-- A text has the bytes of its first character and then those of the rest. -/
@[simp]
theorem encode_cons (c : Char) (cs : List Char) :
    encode (c :: cs) = String.utf8EncodeChar c ++ encode cs := rfl

/-- Texts that are put together have their bytes put together. -/
@[simp]
theorem encode_append (cs ds : List Char) : encode (cs ++ ds) = encode cs ++ encode ds :=
  List.flatMap_append

/-- The bytes of a string in order, the key by which names are sorted. -/
def bytes (s : String) : List UInt8 :=
  s.toByteArray.data.toList

/-- Strings with the same bytes are the same string. -/
theorem bytes_inj {s t : String} : bytes s = bytes t ↔ s = t := by
  constructor
  · intro h
    have hd : s.toByteArray.data = t.toByteArray.data := Array.toList_inj.1 h
    exact String.toByteArray_inj.1 (ByteArray.ext hd)
  · rintro rfl
    rfl

/-- The bytes of a string are those of its characters. -/
theorem bytes_eq_encode (s : String) : bytes s = encode s.toList := by
  have h : s.toByteArray = s.toList.utf8Encode := by
    rw [String.utf8Encode_toList]
  simp [bytes, h, List.utf8Encode, encode]

/-- The character that stands for bytes that are not UTF-8. -/
def replacement : Char := '\uFFFD'

/-- A sequence that has begun: the bits read so far, and the range of each byte still to come. -/
structure Pending where
  value : Nat
  ranges : List (UInt8 × UInt8)
  deriving DecidableEq, Repr

namespace Pending

/-- No sequence has begun. -/
def idle : Pending := ⟨0, []⟩

/-- The range of a byte that continues a sequence in the usual case. -/
def continuation : UInt8 × UInt8 := (0x80, 0xBF)

/-- The sequence that a first byte begins, if it begins one. An ASCII byte has nothing to come. The
ranges exclude overlong forms, surrogates and code points beyond the last. -/
def ofLead? (b : UInt8) : Option Pending :=
  if b ≤ 0x7F then some ⟨b.toNat, []⟩
  else if b < 0xC2 then none
  else if b ≤ 0xDF then some ⟨b.toNat - 0xC0, [continuation]⟩
  else if b = 0xE0 then some ⟨0, [(0xA0, 0xBF), continuation]⟩
  else if b = 0xED then some ⟨0xD, [(0x80, 0x9F), continuation]⟩
  else if b ≤ 0xEF then some ⟨b.toNat - 0xE0, [continuation, continuation]⟩
  else if b = 0xF0 then some ⟨0, [(0x90, 0xBF), continuation, continuation]⟩
  else if b ≤ 0xF3 then some ⟨b.toNat - 0xF0, [continuation, continuation, continuation]⟩
  else if b = 0xF4 then some ⟨4, [(0x80, 0x8F), continuation, continuation]⟩
  else none

/-- What a byte gives as the first of a sequence: the characters it completes, and what it
begins. -/
def start (b : UInt8) : List Char × Pending :=
  match ofLead? b with
  | none => ([replacement], idle)
  | some ⟨value, []⟩ => ([Char.ofNat value], idle)
  | some pending => ([], pending)

/-- What a byte gives after a sequence has begun: it goes on with the sequence if it lies in the
range that is due; otherwise the sequence is replaced and the byte is taken as a first one. -/
def step (pending : Pending) (b : UInt8) : List Char × Pending :=
  match pending.ranges with
  | [] => start b
  | (low, high) :: later =>
      if low ≤ b ∧ b ≤ high then
        let value := pending.value * 64 + b.toNat % 64
        match later with
        | [] => ([Char.ofNat value], idle)
        | _ :: _ => ([], ⟨value, later⟩)
      else
        let (cs, next) := start b
        (replacement :: cs, next)

/-- A sequence that is still open at the end is replaced. -/
def finish (pending : Pending) : List Char :=
  if pending.ranges.isEmpty then [] else [replacement]

end Pending

/-- Decodes bytes that follow a sequence already begun. -/
def decodeFrom (pending : Pending) : List UInt8 → List Char
  | [] => pending.finish
  | b :: bs =>
      let (cs, next) := pending.step b
      cs ++ decodeFrom next bs

/-- Decodes any bytes, with replacement characters where they are not UTF-8. -/
def decodeLossy (bs : List UInt8) : List Char :=
  decodeFrom .idle bs

end QuoteLisp.Text
