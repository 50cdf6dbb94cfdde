import QuoteLisp.Text.Utf8

/-!
# The order of names

Names are listed in the order of their UTF-8 bytes, a strict order in which any two different names
can be compared.
-/

set_option autoImplicit false

namespace QuoteLisp

/-- Names are ordered by their UTF-8 bytes. -/
def NameBefore (s t : String) : Prop :=
  Text.bytes s < Text.bytes t

instance (s t : String) : Decidable (NameBefore s t) :=
  inferInstanceAs (Decidable (Text.bytes s < Text.bytes t))

namespace NameBefore

/-- No name comes before itself. -/
theorem irrefl (s : String) : ¬ NameBefore s s :=
  List.lt_irrefl _

/-- The order of names is transitive. -/
theorem trans {s t u : String} (h : NameBefore s t) (h' : NameBefore t u) : NameBefore s u :=
  List.lt_trans h h'

/-- Of two different names one comes before the other. -/
theorem of_not {s t : String} (hne : s ≠ t) (h : ¬ NameBefore s t) : NameBefore t s := by
  rcases Std.lt_trichotomy (Text.bytes s) (Text.bytes t) with hlt | heq | hgt
  · exact absurd hlt h
  · exact absurd (Text.bytes_inj.1 heq) hne
  · exact hgt

end NameBefore

/-- Names in order. -/
def sortNames (names : List String) : List String :=
  names.mergeSort fun s t => !decide (NameBefore t s)

end QuoteLisp
