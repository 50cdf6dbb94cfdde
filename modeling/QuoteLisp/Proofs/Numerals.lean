import QuoteLisp.Proofs.Patterns
import QuoteLisp.Proofs.ShortestDecimal

/-!
# Numerals read back

What is written of a number has the pattern of its kind and is read as the same number. For integers
this is a matter of digits and a sign (`readInt64?_writeInt`, `fits_writeInt`). A double is written
as its shortest decimal, in one of two forms. Reading either form may give the decimal with more
zeros, or with the point elsewhere, but always one that is rounded to the same double (`Spells`), and
the shortest decimal is rounded to the double it came from. So a finite double is read back bit for
bit, its sign included (`readDouble?_writeDouble`, `fits_writeDouble`).
-/

set_option autoImplicit false

namespace QuoteLisp.Numeric

open Lexeme (isDigits isDigits_iff isUnsignedDouble dropMinus)

/-! ### Digits -/

/-- The numeral of a natural number is a run of digits. -/
theorem isDigits_toDigits (n : Nat) : isDigits (Nat.toDigits 10 n) = true := by
  refine isDigits_iff.2 ⟨Nat.toDigits_ne_nil, ?_⟩
  intro c hc
  have hdigit := Nat.isDigit_of_mem_toDigits (by decide) (by decide) hc
  simp only [Char.isDigit, ge_iff_le, Bool.and_eq_true, decide_eq_true_eq] at hdigit
  simp only [isDigit, Bool.and_eq_true, decide_eq_true_eq, Char.le_def]
  exact hdigit

/-- The value of digits is that of the decimal numeral. -/
theorem digitsValue_eq (cs : List Char) : digitsValue cs = Nat.ofDigitChars 10 cs 0 := by
  simp only [digitsValue, Nat.ofDigitChars_eq_foldl, Nat.mul_comm]

/-- The value of a numeral is the number that it was written for. -/
theorem digitsValue_toDigits (n : Nat) : digitsValue (Nat.toDigits 10 n) = n := by
  rw [digitsValue_eq, Nat.ofDigitChars_ten_toDigits]

/-- Zeros at the end multiply the value by powers of ten. -/
theorem digitsValue_append_zeros (cs : List Char) (k : Nat) :
    digitsValue (cs ++ List.replicate k '0') = digitsValue cs * 10 ^ k := by
  rw [digitsValue_eq, digitsValue_eq, Nat.ofDigitChars_append, Nat.ofDigitChars_replicate_zero,
    Nat.mul_comm]

/-- Zeros in front do not change the value. -/
theorem digitsValue_zeros_append (k : Nat) (cs : List Char) :
    digitsValue (List.replicate k '0' ++ cs) = digitsValue cs := by
  rw [digitsValue_eq, digitsValue_eq, Nat.ofDigitChars_append, Nat.ofDigitChars_replicate_zero,
    Nat.mul_zero]

/-- Zeros are digits. -/
theorem isDigit_of_mem_replicate {k : Nat} {c : Char} (h : c ∈ List.replicate k '0') :
    isDigit c = true := by
  rw [List.eq_of_mem_replicate h]
  decide

/-- A run of digits is read as its value. -/
theorem readDigits?_of_isDigits {cs : List Char} (h : isDigits cs = true) :
    readDigits? cs = some (digitsValue cs) :=
  if_pos h

/-- A text whose first character is a digit, so that it has no sign and is no name. -/
def StartsWithDigit (cs : List Char) : Prop :=
  ∃ c ds, cs = c :: ds ∧ isDigit c = true

namespace StartsWithDigit

/-- A run of digits starts with a digit. -/
theorem of_isDigits {cs : List Char} (h : isDigits cs = true) : StartsWithDigit cs := by
  obtain ⟨hne, hdigits⟩ := isDigits_iff.1 h
  obtain ⟨c, ds, rfl⟩ := List.exists_cons_of_ne_nil hne
  exact ⟨c, ds, rfl, hdigits c List.mem_cons_self⟩

/-- What starts with a digit does so with more text behind it. -/
theorem append {cs : List Char} (h : StartsWithDigit cs) (ds : List Char) :
    StartsWithDigit (cs ++ ds) := by
  obtain ⟨c, cs, rfl, hc⟩ := h
  exact ⟨c, cs ++ ds, rfl, hc⟩

/-- No sign is split off what starts with a digit. -/
theorem splitSign_eq {cs : List Char} (h : StartsWithDigit cs) : splitSign cs = (false, cs) := by
  obtain ⟨c, ds, rfl, hc⟩ := h
  unfold splitSign
  split
  · next heq =>
      cases heq
      simp [isDigit] at hc
  · next heq =>
      cases heq
      simp [isDigit] at hc
  · rfl

/-- No minus sign is dropped from what starts with a digit. -/
theorem dropMinus_eq {cs : List Char} (h : StartsWithDigit cs) : dropMinus cs = cs := by
  obtain ⟨c, ds, rfl, hc⟩ := h
  unfold dropMinus
  split
  · next heq =>
      cases heq
      simp [isDigit] at hc
  · rfl

/-- A text that starts with a digit is not a name, whatever the case of its letters. -/
theorem ofList_map_toLower_ne {cs : List Char} (h : StartsWithDigit cs) {name : String}
    (hname : name.toList.head?.any isDigit = false) :
    String.ofList (cs.map Char.toLower) ≠ name := by
  obtain ⟨c, ds, rfl, hc⟩ := h
  rintro rfl
  have hlower : c.toLower = c := by
    simp only [isDigit, Bool.and_eq_true, decide_eq_true_eq, Char.le_def] at hc
    apply dif_neg
    rintro ⟨hupper, -⟩
    have hle : 'A'.val ≤ '9'.val := UInt32.le_trans hupper hc.2
    revert hle
    decide
  simp [hlower, hc] at hname

end StartsWithDigit

/-! ### Integers -/

/-- An integer that is written is read back. -/
theorem readInt?_writeInt (n : Int) : readInt? (writeInt n) = some n := by
  have hdigits := isDigits_toDigits n.natAbs
  have hread := readDigits?_of_isDigits hdigits
  rw [digitsValue_toDigits] at hread
  by_cases hn : n < 0
  · simp only [readInt?, writeInt, hn, if_true, splitSign, writeNat, hread, Option.map_some, signed]
    congr
    omega
  · simp only [readInt?, writeInt, hn, if_false, writeNat,
      (StartsWithDigit.of_isDigits hdigits).splitSign_eq, hread, Option.map_some, signed]
    congr
    simp
    omega

/-- A 64-bit integer, taken as an integer, is in range and comes back. -/
theorem toInt64?_toInt (n : Int64) : toInt64? n.toInt = some n := by
  rw [toInt64?, if_pos ⟨Int64.minValue_le_toInt n, Int64.toInt_le n⟩, Int64.ofInt_toInt]

/-- A 64-bit integer that is written is read back. -/
theorem readInt64?_writeInt (n : Int64) : readInt64? (writeInt n.toInt) = some n := by
  rw [readInt64?, readInt?_writeInt, Option.bind_some, toInt64?_toInt]

/-- An integer is written as an integer literal. -/
theorem fits_writeInt (n : Int) : Lexeme.long.Fits (writeInt n) := by
  rw [Lexeme.Fits, ← Lexeme.isLong_iff, Lexeme.isLong, writeInt]
  have hdigits := isDigits_toDigits n.natAbs
  split
  · exact hdigits
  · rw [writeNat, (StartsWithDigit.of_isDigits hdigits).dropMinus_eq]
    exact hdigits

/-! ### Decimals -/

/-- A mark and an integer are an exponent. -/
theorem mem_exponent_writeInt (n : Int) : 'e' :: writeInt n ∈ Lexeme.exponent.matches' := by
  rw [← Lexeme.isExponent_iff, Lexeme.isExponent, Lexeme.isSignedDigits_iff.2]
  · rfl
  · rw [RegularExpression.matches'_mul, Language.mem_mul, writeInt]
    have hdigits := Lexeme.mem_many_digit.2 (isDigits_toDigits n.natAbs)
    split
    · exact ⟨['-'], Lexeme.mem_optional.2 (.inr (Lexeme.mem_oneOf.2 ⟨'-', by simp, rfl⟩)), _,
        hdigits, rfl⟩
    · exact ⟨[], Lexeme.mem_optional.2 (.inl rfl), _, hdigits, rfl⟩

/-- An exponent that is written is read back. -/
theorem readExponent?_writeInt (n : Int) : readExponent? ('e' :: writeInt n) = some n := by
  simp [readExponent?, readInt?_writeInt]

/-- Digits with a point are read as all digits, with an exponent that takes the fraction away. -/
theorem readDecimal?_point {whole fraction rest : List Char} (hwhole : isDigits whole = true)
    (hfraction : ∀ c ∈ fraction, isDigit c = true)
    (hrest : ∀ c ∈ rest.head?, isDigit c = false) :
    readDecimal? (whole ++ '.' :: (fraction ++ rest)) =
      (readExponent? rest).map fun exponent =>
        ⟨digitsValue (whole ++ fraction), exponent - fraction.length⟩ := by
  obtain ⟨hne, hdigits⟩ := isDigits_iff.1 hwhole
  have hpoint : ∀ c ∈ ('.' :: (fraction ++ rest)).head?, isDigit c = false := by simp [isDigit]
  obtain ⟨htake, hdrop⟩ := Text.span_append hdigits hpoint
  obtain ⟨htake', hdrop'⟩ := Text.span_append hfraction hrest
  simp [readDecimal?, htake, hdrop, htake', hdrop', hne]

/-- Digits with an exponent are read as a decimal of these. -/
theorem readDecimal?_exponent {whole rest : List Char} (hwhole : isDigits whole = true) :
    readDecimal? (whole ++ 'e' :: rest) =
      (readExponent? ('e' :: rest)).map fun exponent => ⟨digitsValue whole, exponent⟩ := by
  obtain ⟨hne, hdigits⟩ := isDigits_iff.1 hwhole
  have hmark : ∀ c ∈ ('e' :: rest).head?, isDigit c = false := by simp [isDigit]
  obtain ⟨htake, hdrop⟩ := Text.span_append hdigits hmark
  simp [readDecimal?, htake, hdrop, hne]

/-- A text spells a magnitude when it is a double literal without a sign and the decimal it spells is
rounded to the magnitude. -/
structure Spells (text : List Char) (magnitude : Nat) : Prop where
  startsWithDigit : StartsWithDigit text
  isUnsignedDouble : isUnsignedDouble text = true
  reads : ∃ d, readDecimal? text = some d ∧ d.toMagnitude = magnitude

/-- Digits with a point spell the magnitude that the decimal is rounded to. -/
theorem spells_point {whole fraction : List Char} {magnitude : Nat}
    (hwhole : isDigits whole = true) (hfraction : ∀ c ∈ fraction, isDigit c = true)
    (hround : Decimal.toMagnitude ⟨digitsValue (whole ++ fraction), -(fraction.length : Int)⟩ =
      magnitude) :
    Spells (whole ++ '.' :: fraction) magnitude where
  startsWithDigit := (StartsWithDigit.of_isDigits hwhole).append _
  isUnsignedDouble := by
    obtain ⟨hne, hdigits⟩ := isDigits_iff.1 hwhole
    have hpoint := Lexeme.isUnsignedDouble_point hdigits hfraction (.inl hne)
      (Lexeme.mem_optional.2 (.inl rfl))
    rwa [List.append_nil] at hpoint
  reads := by
    have hend : ∀ c ∈ ([] : List Char).head?, isDigit c = false := by simp
    have hread := readDecimal?_point hwhole hfraction hend
    rw [List.append_nil] at hread
    exact ⟨_, hread, by simpa using hround⟩

/-- Digits with a point some places from their end spell their value with these places. -/
theorem spells_cut {digits : List Char} {places : Nat} (hdigits : ∀ c ∈ digits, isDigit c = true)
    (hlength : places < digits.length) :
    Spells (digits.take (digits.length - places) ++ '.' :: digits.drop (digits.length - places))
      (Decimal.toMagnitude ⟨digitsValue digits, -(places : Int)⟩) := by
  apply spells_point
  · refine isDigits_iff.2 ⟨?_, fun c hc => hdigits c (List.mem_of_mem_take hc)⟩
    intro hnil
    have hzero := congrArg List.length hnil
    rw [List.length_take, List.length_nil] at hzero
    omega
  · exact fun c hc => hdigits c (List.mem_of_mem_drop hc)
  · have hplaces : digits.length - (digits.length - places) = places := by omega
    rw [List.take_append_drop, List.length_drop, hplaces]

/-- The positional form of a decimal spells the double it is rounded to. -/
theorem spells_writePositional (d : Decimal) : Spells (writePositional d) d.toMagnitude := by
  obtain ⟨c, exponent⟩ := d
  obtain ⟨hne, hdigits⟩ := isDigits_iff.1 (isDigits_toDigits c)
  cases exponent with
  | ofNat e =>
      show Spells (Nat.toDigits 10 c ++ List.replicate e '0' ++ ['.', '0']) _
      apply spells_point
      · refine isDigits_iff.2 ⟨by simp [hne], ?_⟩
        intro x hx
        rcases List.mem_append.1 hx with hx | hx
        · exact hdigits x hx
        · exact isDigit_of_mem_replicate hx
      · simp [isDigit]
      · -- The zero after the point is read as one more power of ten.
        have hexponent : -((['0'].length : Nat) : Int) = Int.ofNat e - (e + 1 : Nat) := by
          simp
        rw [List.append_assoc, ← List.replicate_succ', digitsValue_append_zeros,
          digitsValue_toDigits, hexponent, Decimal.toMagnitude_mul_pow]
  | negSucc e =>
      let zeros := List.replicate (e + 1 + 1 - (Nat.toDigits 10 c).length) '0'
      have hall : ∀ x ∈ zeros ++ Nat.toDigits 10 c, isDigit x = true := by
        intro x hx
        rcases List.mem_append.1 hx with hx | hx
        · exact isDigit_of_mem_replicate hx
        · exact hdigits x hx
      have hlength : e + 1 < (zeros ++ Nat.toDigits 10 c).length := by
        rw [List.length_append, List.length_replicate]
        omega
      have hspells := spells_cut hall hlength
      rw [digitsValue_zeros_append, digitsValue_toDigits] at hspells
      exact hspells

/-- The form of a decimal with an exponent spells the double it is rounded to. -/
theorem spells_writeScientific (d : Decimal) : Spells (writeScientific d) d.toMagnitude := by
  have hdigits := isDigits_toDigits d.coefficient
  have hexponent := mem_exponent_writeInt d.leadingExponent
  have hend : ∀ c ∈ ('e' :: writeInt d.leadingExponent).head?, isDigit c = false := by
    simp [isDigit]
  obtain ⟨first, others, hcons⟩ := List.exists_cons_of_ne_nil (isDigits_iff.1 hdigits).1
  have hfirst : isDigits [first] = true := by
    have hdigit := (isDigits_iff.1 hdigits).2 first (by simp [hcons])
    simp [isDigits, hdigit]
  have hothers : ∀ c ∈ others, isDigit c = true := fun c hc =>
    (isDigits_iff.1 hdigits).2 c (by simp [hcons, hc])
  have hvalue : digitsValue (first :: others) = d.coefficient := by
    rw [← hcons, digitsValue_toDigits]
  have hlead : d.leadingExponent - others.length = d.exponent := by
    simp only [Decimal.leadingExponent, Decimal.digits, hcons, List.length_cons]
    omega
  -- A single digit is written without a point. Otherwise the digits behind it lower the exponent
  -- that is read, and `hlead` says that this undoes what the leading exponent adds.
  cases others with
  | nil =>
      have htext : writeScientific d = [first] ++ 'e' :: writeInt d.leadingExponent := by
        simp [writeScientific, Decimal.digits, hcons]
      rw [htext]
      refine ⟨(StartsWithDigit.of_isDigits hfirst).append _,
        Lexeme.isUnsignedDouble_exponent hfirst hexponent, _, ?_, rfl⟩
      rw [readDecimal?_exponent hfirst, readExponent?_writeInt, Option.map_some, hvalue]
      simp at hlead
      rw [hlead]
  | cons second others =>
      have htext : writeScientific d =
          [first] ++ '.' :: ((second :: others) ++ 'e' :: writeInt d.leadingExponent) := by
        simp [writeScientific, Decimal.digits, hcons]
      rw [htext]
      refine ⟨(StartsWithDigit.of_isDigits hfirst).append _,
        Lexeme.isUnsignedDouble_point (isDigits_iff.1 hfirst).2 hothers (.inr (by simp))
          (Lexeme.mem_optional.2 (.inr hexponent)), _, ?_, rfl⟩
      rw [readDecimal?_point hfirst hothers hend, readExponent?_writeInt, Option.map_some, hlead]
      rw [List.singleton_append, hvalue]

/-- What is written of a finite magnitude spells it. -/
theorem spells_writeMagnitude {m : Nat} (hm : m < infinityMagnitude) :
    Spells (writeMagnitude m) m := by
  unfold writeMagnitude
  split
  · next hzero =>
      rw [hzero]
      have hspells : Spells (['0'] ++ '.' :: ['0']) 0 :=
        spells_point (by decide) (by simp [isDigit]) (by decide)
      exact hspells
  · have hround := Decimal.toMagnitude_shortest hm
    dsimp only
    split
    · have hspells := spells_writePositional (Decimal.shortest m)
      rwa [hround] at hspells
    · have hspells := spells_writeScientific (Decimal.shortest m)
      rwa [hround] at hspells

/-! ### Doubles -/

/-- A double literal has more than digits. -/
theorem not_isDigits_of_isUnsignedDouble {cs : List Char} (h : isUnsignedDouble cs = true) :
    ¬ isDigits cs = true := by
  intro hdigits
  obtain ⟨-, hall⟩ := isDigits_iff.1 hdigits
  have hend : ∀ c ∈ ([] : List Char).head?, isDigit c = false := by simp
  obtain ⟨htake, hdrop⟩ := Text.span_append hall hend
  rw [List.append_nil] at htake hdrop
  simp [isUnsignedDouble, htake, hdrop, Lexeme.isExponent] at h

/-- The text of a finite double: a minus sign if it has one, and its magnitude. -/
theorem exists_writeDouble_eq {x : Double} (hx : x.isFinite = true) :
    ∃ body, Spells body x.magnitude ∧
      writeDouble x = if x.isNegative then '-' :: body else body := by
  have hm : x.magnitude < infinityMagnitude := of_decide_eq_true hx
  have hnan : x.isNaN = false := decide_eq_false (by omega)
  refine ⟨writeMagnitude x.magnitude, spells_writeMagnitude hm, ?_⟩
  simp [writeDouble, hnan, hx]

/-- A finite double that is written is read back, its sign included. -/
theorem readDouble?_writeDouble {x : Double} (hx : x.isFinite = true) :
    readDouble? (writeDouble x) = some x := by
  obtain ⟨body, hspells, htext⟩ := exists_writeDouble_eq hx
  have hsplit : splitSign (writeDouble x) = (x.isNegative, body) := by
    rw [htext]
    cases x.isNegative with
    | true => rfl
    | false => exact hspells.startsWithDigit.splitSign_eq
  -- Names of doubles are tried before decimals, but a name starts with a letter.
  have hletter : ∀ name ∈ ["inf", "infinity", "nan"],
      name.toList.head?.any isDigit = false := by decide
  have hname : ∀ name ∈ ["inf", "infinity", "nan"],
      String.ofList (body.map Char.toLower) ≠ name := fun name h =>
    hspells.startsWithDigit.ofList_map_toLower_ne (hletter name h)
  obtain ⟨d, hread, hround⟩ := hspells.reads
  simp only [List.mem_cons, List.not_mem_nil, or_false, forall_eq_or_imp, forall_eq] at hname
  simp only [readDouble?, hsplit, hname, or_self, if_false, hread, Option.map_some, hround,
    Double.ofSign_isNegative_magnitude]

/-- A finite double is written as a double literal. -/
theorem fits_writeDouble {x : Double} (hx : x.isFinite = true) :
    Lexeme.double.Fits (writeDouble x) := by
  obtain ⟨body, hspells, htext⟩ := exists_writeDouble_eq hx
  have hdrop : dropMinus (writeDouble x) = body := by
    rw [htext]
    cases x.isNegative with
    | true => rfl
    | false => exact hspells.startsWithDigit.dropMinus_eq
  rw [Lexeme.Fits, ← Lexeme.isLong_iff, ← Lexeme.isDouble_iff, Lexeme.isLong, Lexeme.isDouble,
    hdrop]
  exact ⟨not_isDigits_of_isUnsignedDouble hspells.isUnsignedDouble, hspells.isUnsignedDouble⟩

end QuoteLisp.Numeric
