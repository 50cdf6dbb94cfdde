import Mathlib.Data.List.TakeWhile
import QuoteLisp.Text.Utf8

/-!
# Decoding the beginning of a text

A text is encoded character by character, and its bytes may be cut anywhere. Decoding finds every
character that is still whole, and puts one replacement character for the one that was cut, if any
(`exists_isLongestFit_decodeLossy`). Each character of more than one byte is a first byte, which tells
the ranges of those to come, and bytes that lie in these ranges and complete it (`Completes`); so
decoding passes through its bytes without a stop, and where they end early it is left with a sequence
that is open.

All bytes of such a character lie beyond ASCII, so a byte that is a newline stands for a newline
(`newline_not_mem_encode`).
-/

set_option autoImplicit false

namespace QuoteLisp.Text

namespace Pending

/-- A sequence that has begun is completed to a character by bytes that lie in the ranges due. -/
inductive Completes (c : Char) : Pending → List UInt8 → Prop where
  | last {value : Nat} {range : UInt8 × UInt8} {b : UInt8} :
      range.1 ≤ b → b ≤ range.2 → Char.ofNat (value * 64 + b.toNat % 64) = c →
      Completes c ⟨value, [range]⟩ [b]
  | next {value : Nat} {range : UInt8 × UInt8} {later : List (UInt8 × UInt8)} {b : UInt8}
      {bs : List UInt8} :
      range.1 ≤ b → b ≤ range.2 → Completes c ⟨value * 64 + b.toNat % 64, later⟩ bs →
      Completes c ⟨value, range :: later⟩ (b :: bs)

/-- A character that is not yet complete waits for a byte. -/
theorem Completes.ranges_ne_nil {c : Char} {pending : Pending} {bs : List UInt8}
    (h : pending.Completes c bs) : pending.ranges ≠ [] := by
  cases h <;> simp

/-- A byte in its range is taken into the character, which waits for the next. -/
theorem step_of_range {value : Nat} {range range' : UInt8 × UInt8} {later : List (UInt8 × UInt8)}
    {b : UInt8} (hlow : range.1 ≤ b) (hhigh : b ≤ range.2) :
    step ⟨value, range :: range' :: later⟩ b =
      ([], ⟨value * 64 + b.toNat % 64, range' :: later⟩) := by
  simp [step, hlow, hhigh]

/-- The last byte in its range completes the character. -/
theorem step_of_last {value : Nat} {range : UInt8 × UInt8} {b : UInt8} (hlow : range.1 ≤ b)
    (hhigh : b ≤ range.2) :
    step ⟨value, [range]⟩ b = ([Char.ofNat (value * 64 + b.toNat % 64)], idle) := by
  simp [step, hlow, hhigh]

/-- The bytes that complete a character decode to it, and the decoder is idle after them. -/
theorem Completes.decodeFrom_append {c : Char} {pending : Pending} {bs : List UInt8}
    (h : pending.Completes c bs) (rest : List UInt8) :
    decodeFrom pending (bs ++ rest) = c :: decodeFrom idle rest := by
  induction h with
  | last hlow hhigh hc => simp [decodeFrom, step_of_last hlow hhigh, hc]
  | next hlow hhigh htail ih =>
      obtain ⟨range', later, rfl⟩ := List.exists_cons_of_ne_nil htail.ranges_ne_nil
      rw [List.cons_append, decodeFrom, step_of_range hlow hhigh]
      exact ih

/-- A sequence that is not completed is replaced. -/
theorem Completes.decodeFrom_take {c : Char} {pending : Pending} {bs : List UInt8}
    (h : pending.Completes c bs) {n : Nat} (hn : n < bs.length) :
    decodeFrom pending (bs.take n) = [replacement] := by
  induction h generalizing n with
  | last =>
      obtain rfl : n = 0 := by simpa using hn
      rfl
  | next hlow hhigh htail ih =>
      cases n with
      | zero => rfl
      | succ n =>
          obtain ⟨range', later, rfl⟩ := List.exists_cons_of_ne_nil htail.ranges_ne_nil
          rw [List.take_succ_cons, decodeFrom, step_of_range hlow hhigh]
          exact ih (by simpa using hn)

/-! ### The bytes of one character -/

/-- What a lead byte announces, by the number of the byte: a whole character, none, or the ranges of
the bytes that must follow. -/
theorem ofLead?_ofNat {n : Nat} (h : n < 256) :
    ofLead? (UInt8.ofNat n) =
      if n ≤ 0x7F then some ⟨n, []⟩
      else if n < 0xC2 then none
      else if n ≤ 0xDF then some ⟨n - 0xC0, [continuation]⟩
      else if n = 0xE0 then some ⟨0, [(0xA0, 0xBF), continuation]⟩
      else if n = 0xED then some ⟨0xD, [(0x80, 0x9F), continuation]⟩
      else if n ≤ 0xEF then some ⟨n - 0xE0, [continuation, continuation]⟩
      else if n = 0xF0 then some ⟨0, [(0x90, 0xBF), continuation, continuation]⟩
      else if n ≤ 0xF3 then some ⟨n - 0xF0, [continuation, continuation, continuation]⟩
      else if n = 0xF4 then some ⟨4, [(0x80, 0x8F), continuation, continuation]⟩
      else none := by
  have hn : (UInt8.ofNat n).toNat = n := by simp [Nat.mod_eq_of_lt h]
  simp only [ofLead?, UInt8.le_iff_toNat_le, UInt8.lt_iff_toNat_lt, ← UInt8.toNat_inj, hn]
  rfl

/-- A byte that continues a sequence adds its last six bits. -/
theorem Completes.next_ofNat {c : Char} {value n m : Nat} {range : UInt8 × UInt8}
    {later : List (UInt8 × UInt8)} {bs : List UInt8} (hlow : range.1.toNat ≤ n % 64 + 128)
    (hhigh : n % 64 + 128 ≤ range.2.toNat) (hm : value * 64 + n % 64 = m)
    (h : Completes c ⟨m, later⟩ bs) :
    Completes c ⟨value, range :: later⟩ (UInt8.ofNat (n % 64 + 128) :: bs) := by
  have hn : (UInt8.ofNat (n % 64 + 128)).toNat = n % 64 + 128 := by
    simp only [UInt8.toNat_ofNat']
    omega
  refine .next ?_ ?_ ?_
  · rwa [UInt8.le_iff_toNat_le, hn]
  · rwa [UInt8.le_iff_toNat_le, hn]
  · have hbits : value * 64 + (UInt8.ofNat (n % 64 + 128)).toNat % 64 = m := by omega
    rwa [hbits]

/-- The last continuation byte of a character completes it. -/
theorem Completes.last_ofNat {c : Char} {value n : Nat} (hc : value * 64 + n % 64 = c.toNat) :
    Completes c ⟨value, [continuation]⟩ [UInt8.ofNat (n % 64 + 128)] := by
  have hn : (UInt8.ofNat (n % 64 + 128)).toNat = n % 64 + 128 := by
    simp only [UInt8.toNat_ofNat']
    omega
  refine .last ?_ ?_ ?_
  · simp only [continuation, UInt8.le_iff_toNat_le, hn]
    exact Nat.le_add_left 128 _
  · simp only [continuation, UInt8.le_iff_toNat_le, hn]
    show n % 64 + 128 ≤ 191
    omega
  · have hbits : value * 64 + (UInt8.ofNat (n % 64 + 128)).toNat % 64 = c.toNat := by omega
    rw [hbits, Char.ofNat_toNat]

/-- The first of three bytes; its range for the second one leaves out overlong forms and
surrogates. -/
theorem exists_ofLead?_three {v : Nat} (hlow : 0x7FF < v) (hhigh : v ≤ 0xFFFF)
    (hvalid : v < 0xD800 ∨ 0xDFFF < v) :
    ∃ low high, ofLead? (UInt8.ofNat (v / 4096 % 16 + 224)) =
        some ⟨v / 4096, [(low, high), continuation]⟩ ∧
      low.toNat ≤ v / 64 % 64 + 128 ∧ v / 64 % 64 + 128 ≤ high.toNat := by
  rw [ofLead?_ofNat (by omega), if_neg (by omega), if_neg (by omega), if_neg (by omega)]
  by_cases hzero : v / 4096 = 0
  · rw [if_pos (by omega), hzero]
    exact ⟨0xA0, 0xBF, rfl, show 160 ≤ _ by omega, show _ ≤ 191 by omega⟩
  · rw [if_neg (by omega)]
    by_cases hsurrogate : v / 4096 = 0xD
    · rw [if_pos (by omega), hsurrogate]
      exact ⟨0x80, 0x9F, rfl, show 128 ≤ _ by omega, show _ ≤ 159 by omega⟩
    · rw [if_neg (by omega), if_pos (by omega)]
      have hvalue : v / 4096 % 16 + 224 - 0xE0 = v / 4096 := by omega
      rw [hvalue]
      exact ⟨0x80, 0xBF, rfl, show 128 ≤ _ by omega, show _ ≤ 191 by omega⟩

/-- The first of four bytes; its range for the second one leaves out overlong forms and what lies
beyond the last character. -/
theorem exists_ofLead?_four {v : Nat} (hlow : 0xFFFF < v) (hhigh : v < 0x110000) :
    ∃ low high, ofLead? (UInt8.ofNat (v / 262144 % 8 + 240)) =
        some ⟨v / 262144, [(low, high), continuation, continuation]⟩ ∧
      low.toNat ≤ v / 4096 % 64 + 128 ∧ v / 4096 % 64 + 128 ≤ high.toNat := by
  rw [ofLead?_ofNat (by omega), if_neg (by omega), if_neg (by omega), if_neg (by omega),
    if_neg (by omega), if_neg (by omega), if_neg (by omega)]
  by_cases hzero : v / 262144 = 0
  · rw [if_pos (by omega), hzero]
    exact ⟨0x90, 0xBF, rfl, show 144 ≤ _ by omega, show _ ≤ 191 by omega⟩
  · rw [if_neg (by omega)]
    by_cases hlast : v / 262144 = 4
    · rw [if_neg (by omega), if_pos (by omega), hlast]
      exact ⟨0x80, 0x8F, rfl, show 128 ≤ _ by omega, show _ ≤ 143 by omega⟩
    · rw [if_pos (by omega)]
      have hvalue : v / 262144 % 8 + 240 - 0xF0 = v / 262144 := by omega
      rw [hvalue]
      exact ⟨0x80, 0xBF, rfl, show 128 ≤ _ by omega, show _ ≤ 191 by omega⟩

/-- The bytes of a character beyond ASCII: the first one begins a sequence that the others
complete. -/
theorem exists_completes_utf8EncodeChar {c : Char} (hc : 0x7F < c.toNat) :
    ∃ b bs pending, String.utf8EncodeChar c = b :: bs ∧ ofLead? b = some pending ∧
      pending.Completes c bs := by
  have hvalid : c.toNat < 0xD800 ∨ 0xDFFF < c.toNat ∧ c.toNat < 0x110000 := c.valid
  have hval : c.val.toNat = c.toNat := rfl
  simp only [String.utf8EncodeChar, hval]
  generalize hv : c.toNat = v at hc hvalid
  rw [if_neg (by omega)]
  by_cases htwo : v ≤ 0x7FF
  · rw [if_pos htwo]
    have hlead := ofLead?_ofNat (show v / 64 % 32 + 192 < 256 by omega)
    rw [if_neg (by omega), if_neg (by omega), if_pos (by omega)] at hlead
    exact ⟨_, _, _, rfl, hlead, .last_ofNat (by omega)⟩
  · rw [if_neg htwo]
    by_cases hthree : v ≤ 0xFFFF
    · rw [if_pos hthree]
      obtain ⟨low, high, hlead, hlow, hhigh⟩ :=
        exists_ofLead?_three (by omega) hthree (by omega)
      exact ⟨_, _, _, rfl, hlead, .next_ofNat hlow hhigh rfl (.last_ofNat (by omega))⟩
    · rw [if_neg hthree]
      obtain ⟨low, high, hlead, hlow, hhigh⟩ := exists_ofLead?_four (v := v) (by omega) (by omega)
      have hlast : Completes c ⟨_, [continuation]⟩ [UInt8.ofNat (v % 64 + 128)] :=
        .last_ofNat (show v / 64 * 64 + v % 64 = c.toNat by omega)
      have hcontinuation : (128 : Nat) ≤ v / 64 % 64 + 128 ∧ v / 64 % 64 + 128 ≤ 191 := by omega
      have hthird : Completes c ⟨v / 4096, [continuation, continuation]⟩
          [UInt8.ofNat (v / 64 % 64 + 128), UInt8.ofNat (v % 64 + 128)] :=
        .next_ofNat hcontinuation.1 hcontinuation.2 (by omega) hlast
      exact ⟨_, _, _, rfl, hlead, .next_ofNat hlow hhigh (by omega) hthird⟩

end Pending

/-! ### Whole and cut texts -/

/-- A lead byte that announces more bytes writes nothing itself. -/
theorem decodeFrom_idle_lead {b : UInt8} {pending : Pending} (h : Pending.ofLead? b = some pending)
    (hranges : pending.ranges ≠ []) (bs : List UInt8) :
    decodeFrom .idle (b :: bs) = decodeFrom pending bs := by
  obtain ⟨value, ranges⟩ := pending
  obtain ⟨range, later, rfl⟩ := List.exists_cons_of_ne_nil hranges
  simp [decodeFrom, Pending.step, Pending.idle, Pending.start, h]

/-- The bytes of a character are decoded to it. -/
theorem decodeFrom_idle_utf8EncodeChar (c : Char) (rest : List UInt8) :
    decodeFrom .idle (String.utf8EncodeChar c ++ rest) = c :: decodeFrom .idle rest := by
  by_cases hc : c.toNat ≤ 0x7F
  · have hbytes : String.utf8EncodeChar c = [UInt8.ofNat c.toNat] := if_pos hc
    have hlead := Pending.ofLead?_ofNat (show c.toNat < 256 by omega)
    rw [if_pos hc] at hlead
    simp [hbytes, decodeFrom, Pending.step, Pending.idle, Pending.start, hlead, Char.ofNat_toNat]
  · obtain ⟨b, bs, pending, hbytes, hlead, hcompletes⟩ :=
      Pending.exists_completes_utf8EncodeChar (Nat.lt_of_not_le hc)
    rw [hbytes, List.cons_append, decodeFrom_idle_lead hlead hcompletes.ranges_ne_nil,
      hcompletes.decodeFrom_append]

/-- A character that is cut after its first byte is replaced. -/
theorem decodeFrom_idle_take_utf8EncodeChar {c : Char} {n : Nat} (hpos : 0 < n)
    (hn : n < (String.utf8EncodeChar c).length) :
    decodeFrom .idle ((String.utf8EncodeChar c).take n) = [replacement] := by
  by_cases hc : c.toNat ≤ 0x7F
  · have hbytes : String.utf8EncodeChar c = [UInt8.ofNat c.toNat] := if_pos hc
    rw [hbytes, List.length_singleton] at hn
    omega
  · obtain ⟨b, bs, pending, hbytes, hlead, hcompletes⟩ :=
      Pending.exists_completes_utf8EncodeChar (Nat.lt_of_not_le hc)
    obtain ⟨n, rfl⟩ := Nat.exists_eq_add_one_of_ne_zero (Nat.ne_of_gt hpos)
    rw [hbytes, List.length_cons] at hn
    rw [hbytes, List.take_succ_cons, decodeFrom_idle_lead hlead hcompletes.ranges_ne_nil,
      hcompletes.decodeFrom_take (by omega)]

/-- The longest beginning of a text, in whole characters, whose bytes are no more than so many. -/
structure IsLongestFit (limit : Nat) (text front : List Char) : Prop where
  beginning : front <+: text
  fits : (encode front).length ≤ limit
  longest : ∀ {other : List Char}, other <+: text → (encode other).length ≤ limit → other <+: front

/-- There is one longest beginning that fits. -/
theorem IsLongestFit.unique {limit : Nat} {text front front' : List Char}
    (h : IsLongestFit limit text front) (h' : IsLongestFit limit text front') : front = front' :=
  (h'.longest h.beginning h.fits).eq_of_length_le (h.longest h'.beginning h'.fits).length_le

/-- A text that fits as a whole is its own longest beginning. -/
theorem isLongestFit_self {limit : Nat} {text : List Char} (h : (encode text).length ≤ limit) :
    IsLongestFit limit text text :=
  ⟨List.prefix_rfl, h, fun hother _ => hother⟩

/-- A first character that is whole belongs to what fits, and leaves its bytes less for the rest. -/
theorem IsLongestFit.cons {limit : Nat} {text front : List Char} {c : Char}
    (hwhole : (String.utf8EncodeChar c).length ≤ limit)
    (h : IsLongestFit (limit - (String.utf8EncodeChar c).length) text front) :
    IsLongestFit limit (c :: text) (c :: front) where
  beginning := List.cons_prefix_cons.2 ⟨rfl, h.beginning⟩
  fits := by
    have hfits := h.fits
    rw [encode_cons, List.length_append]
    omega
  longest := by
    intro other hother hfits
    rcases List.prefix_cons_iff.1 hother with rfl | ⟨rest, rfl, hrest⟩
    · exact List.nil_prefix
    · rw [encode_cons, List.length_append] at hfits
      exact List.cons_prefix_cons.2 ⟨rfl, h.longest hrest (by omega)⟩

/-- Where the first character is cut, nothing fits. -/
theorem isLongestFit_nil {limit : Nat} {text : List Char} {c : Char}
    (hcut : limit < (String.utf8EncodeChar c).length) : IsLongestFit limit (c :: text) [] where
  beginning := List.nil_prefix
  fits := Nat.zero_le limit
  longest := by
    intro other hother hfits
    rcases List.prefix_cons_iff.1 hother with rfl | ⟨rest, rfl, -⟩
    · exact List.prefix_rfl
    · rw [encode_cons, List.length_append] at hfits
      omega

/-- What is decoded of the first bytes of a text is the longest beginning of whole characters among
them, and a replacement if there are more bytes than those of that beginning. -/
theorem exists_isLongestFit_decodeLossy (cs : List Char) (n : Nat) :
    ∃ front, IsLongestFit n cs front ∧
      decodeLossy ((encode cs).take n) =
        front ++ if (encode front).length < min n (encode cs).length then [replacement] else [] := by
  unfold decodeLossy
  induction cs generalizing n with
  | nil =>
      refine ⟨[], isLongestFit_self (Nat.zero_le n), ?_⟩
      simp [decodeFrom, Pending.finish, Pending.idle]
  | cons c cs ih =>
      rw [encode_cons, List.take_append, List.length_append]
      by_cases hwhole : (String.utf8EncodeChar c).length ≤ n
      · obtain ⟨front, hfit, hdecode⟩ := ih (n - (String.utf8EncodeChar c).length)
        refine ⟨c :: front, hfit.cons hwhole, ?_⟩
        have hcut : (encode (c :: front)).length <
              min n ((String.utf8EncodeChar c).length + (encode cs).length) ↔
            (encode front).length <
              min (n - (String.utf8EncodeChar c).length) (encode cs).length := by
          rw [encode_cons, List.length_append]
          omega
        simp only [List.take_of_length_le hwhole, decodeFrom_idle_utf8EncodeChar, hdecode, hcut,
          List.cons_append]
      · have hrest : n - (String.utf8EncodeChar c).length = 0 := by omega
        refine ⟨[], isLongestFit_nil (by omega), ?_⟩
        rw [hrest, List.take_zero, List.append_nil, encode_nil, List.length_nil, List.nil_append]
        -- A cut right before the character leaves nothing behind; one inside of it leaves its
        -- first bytes, and they are replaced.
        by_cases hpos : 0 < n
        · rw [decodeFrom_idle_take_utf8EncodeChar hpos (by omega), if_pos (by omega)]
        · obtain rfl : n = 0 := by omega
          rfl

/-- An ASCII byte among the bytes of a character is that character. -/
theorem toNat_eq_of_mem_utf8EncodeChar {c : Char} {b : UInt8} (hb : b.toNat ≤ 0x7F)
    (h : b ∈ String.utf8EncodeChar c) : c.toNat = b.toNat := by
  have hval : c.val.toNat = c.toNat := rfl
  have hbound : c.toNat < 0x110000 := by
    have hvalid : c.toNat < 0xD800 ∨ 0xDFFF < c.toNat ∧ c.toNat < 0x110000 := c.valid
    omega
  simp only [String.utf8EncodeChar, hval] at h
  split at h
  · rw [List.mem_singleton.1 h, UInt8.toNat_ofNat']
    omega
  · -- all bytes of longer sequences are beyond ASCII
    exfalso
    split at h
    · simp only [List.mem_cons, List.not_mem_nil, or_false] at h
      rcases h with rfl | rfl <;> simp only [UInt8.toNat_ofNat'] at hb <;> omega
    · split at h
      · simp only [List.mem_cons, List.not_mem_nil, or_false] at h
        rcases h with rfl | rfl | rfl <;> simp only [UInt8.toNat_ofNat'] at hb <;> omega
      · simp only [List.mem_cons, List.not_mem_nil, or_false] at h
        rcases h with rfl | rfl | rfl | rfl <;> simp only [UInt8.toNat_ofNat'] at hb <;> omega

/-- The bytes of a text without a newline have no newline among them. -/
theorem newline_not_mem_encode {cs : List Char} (h : '\n' ∉ cs) : (0x0A : UInt8) ∉ encode cs := by
  intro hmem
  obtain ⟨c, hc, hbyte⟩ := List.mem_flatMap.1 hmem
  have hnat : c.toNat = 0x0A := toNat_eq_of_mem_utf8EncodeChar (by decide) hbyte
  have hnewline : c = '\n' := by rw [← Char.ofNat_toNat c, hnat]
  exact h (hnewline ▸ hc)

end QuoteLisp.Text
