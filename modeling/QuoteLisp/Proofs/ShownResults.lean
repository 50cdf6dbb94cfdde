import QuoteLisp.Proofs.PrintedLines

/-!
# How a result is shown

A result is printed into a buffer of fixed size, and what the buffer holds is decoded. The buffer cuts
the printed form at a byte, which may lie inside a character of two to four bytes. Still a whole
character is never lost and half a character never shown: what is shown is the longest beginning of
the printed form in whole characters (`Text.IsLongestFit`), and then one replacement character if
another was cut. The printed form itself may hold any characters, since names of symbols may.
-/

set_option autoImplicit false

namespace QuoteLisp

namespace Value

/-- **Results are shown in whole characters.** A result whose printed form has at most 4095 bytes is
shown as its printed form. Of any other the longest beginning of whole characters is shown that has at
most 4095 bytes; one replacement character follows if it has fewer, for then a character was cut, and
nothing follows if it has just as many. -/
theorem results_are_shown_in_whole_characters (v : Value) :
    ((Text.bytes v.text).length ≤ 4095 → v.format = v.text.toList) ∧
    (4095 < (Text.bytes v.text).length →
      ∃ front, Text.IsLongestFit 4095 v.text.toList front ∧
        v.format =
          front ++ if (Text.encode front).length < 4095 then [Text.replacement] else []) := by
  obtain ⟨front, hfit, hdecode⟩ := Text.exists_isLongestFit_decodeLossy v.spell 4095
  have hformat : v.format = Text.decodeLossy ((Text.encode v.spell).take 4095) := v.format_eq
  rw [toList_text, bytes_text]
  constructor
  · intro hshort
    obtain rfl : front = v.spell := hfit.unique (Text.isLongestFit_self hshort)
    have hwhole : ¬ (Text.encode v.spell).length < min 4095 (Text.encode v.spell).length := by
      omega
    rw [hformat, hdecode, if_neg hwhole, List.append_nil]
  · intro hlong
    refine ⟨front, hfit, ?_⟩
    rw [hformat, hdecode, Nat.min_eq_left (Nat.le_of_lt hlong)]

section Sample

/-- A symbol whose name is so many characters of four bytes. -/
def smiles (n : Nat) : Value := .symbol (String.ofList (List.replicate n '😀'))

/-- Such a symbol is printed as its characters. -/
theorem spell_smiles (n : Nat) : (smiles n).spell = List.replicate n '😀' :=
  String.toList_ofList

/-- Each of the characters has four bytes. -/
theorem length_encode_smiles (n : Nat) :
    (Text.encode (List.replicate n '😀')).length = 4 * n := by
  induction n with
  | zero => rfl
  | succ n ih =>
      have hwidth : (String.utf8EncodeChar '😀').length = 4 := by decide
      rw [List.replicate_succ, Text.encode_cons, List.length_append, ih, hwidth]
      omega

/-- Of characters of four bytes, as many fit as the limit has groups of four. -/
theorem isLongestFit_smiles {n limit : Nat} (hfits : 4 * n ≤ limit) (hcut : limit < 4 * (n + 1)) :
    Text.IsLongestFit limit (List.replicate (n + 1) '😀') (List.replicate n '😀') where
  beginning := List.prefix_replicate_iff.2 (by simp)
  fits := by rwa [length_encode_smiles]
  longest := by
    intro other hother hlimit
    obtain ⟨-, heq⟩ := List.prefix_replicate_iff.1 hother
    rw [heq, length_encode_smiles] at hlimit
    exact List.prefix_replicate_iff.2 ⟨by omega, heq⟩

/-- Of 1024 characters of four bytes each the buffer holds 1023 and three bytes of the last, which are
shown as one replacement character. One character less is shown as it is. -/
theorem last_of_many_smiles_is_cut :
    (Text.bytes (smiles 1023).text).length ≤ 4095 ∧
      (smiles 1023).format = (smiles 1023).text.toList ∧
      4095 < (Text.bytes (smiles 1024).text).length ∧
      (smiles 1024).format = List.replicate 1023 '😀' ++ ['\uFFFD'] := by
  have hshort : (Text.bytes (smiles 1023).text).length ≤ 4095 := by
    rw [bytes_text, spell_smiles, length_encode_smiles]
    omega
  have hlong : 4095 < (Text.bytes (smiles 1024).text).length := by
    rw [bytes_text, spell_smiles, length_encode_smiles]
    omega
  obtain ⟨front, hfit, hformat⟩ := (results_are_shown_in_whole_characters (smiles 1024)).2 hlong
  obtain rfl : front = List.replicate 1023 '😀' := by
    rw [toList_text, spell_smiles] at hfit
    exact hfit.unique (isLongestFit_smiles (by omega) (by omega))
  rw [length_encode_smiles, if_pos (by omega)] at hformat
  exact ⟨hshort, (results_are_shown_in_whole_characters (smiles 1023)).1 hshort, hlong, hformat⟩

end Sample

end Value

end QuoteLisp
