import QuoteLisp.Proofs.Numerals
import QuoteLisp.Proofs.Programs

/-!
# Trees with unknown tags

A tree may carry any tags. Only groups are looked into: `Node.reached` lists the nodes that are reached
from the root through groups, in preorder, so what hangs below a leaf or below an unknown tag does not
matter. A tree whose reached nodes have known tags has a value of the same shape, which `Node.Denotes`
tells rule by rule, numerals by their digits. Any other tree has none, and is refused by the first
unknown tag that is reached (`Node.ofNode_judged`).

The reader knows its own tags, so that a line which can be read always has a value, and a session
refuses a line only because it cannot be read.
-/

set_option autoImplicit false

namespace QuoteLisp

namespace Numeric

open Lexeme (isDigits)

/-- A text is the decimal numeral of an integer: digits, after a sign or not. Leading zeros are fine. -/
inductive IsNumeral : List Char → Int → Prop where
  | unsigned {digits : List Char} : isDigits digits = true →
      IsNumeral digits (Nat.ofDigitChars 10 digits 0)
  | plus {digits : List Char} : isDigits digits = true →
      IsNumeral ('+' :: digits) (Nat.ofDigitChars 10 digits 0)
  | minus {digits : List Char} : isDigits digits = true →
      IsNumeral ('-' :: digits) (-(Nat.ofDigitChars 10 digits 0 : Int))

/-- Digits are read as the number that they write in decimal. -/
theorem readDigits?_eq_some_iff {cs : List Char} {n : Nat} :
    readDigits? cs = some n ↔ isDigits cs = true ∧ n = Nat.ofDigitChars 10 cs 0 := by
  rw [← digitsValue_eq]
  constructor
  · intro h
    unfold readDigits? at h
    split at h
    · next hdigits =>
        cases h
        exact ⟨hdigits, rfl⟩
    · cases h
  · rintro ⟨hdigits, rfl⟩
    exact readDigits?_of_isDigits hdigits

/-- A text is read as an integer exactly when it is a numeral of it. -/
theorem readInt?_eq_some_iff {cs : List Char} {n : Int} :
    readInt? cs = some n ↔ IsNumeral cs n := by
  constructor
  · intro h
    obtain ⟨magnitude, hread, rfl⟩ := Option.map_eq_some_iff.1 h
    obtain ⟨hdigits, rfl⟩ := readDigits?_eq_some_iff.1 hread
    split at hdigits
    · exact .minus hdigits
    · exact .plus hdigits
    · exact .unsigned hdigits
  · rintro (hdigits | hdigits | hdigits)
    · have hsplit := (StartsWithDigit.of_isDigits hdigits).splitSign_eq
      simp only [readInt?, hsplit, readDigits?_eq_some_iff.2 ⟨hdigits, rfl⟩, Option.map_some, signed]
      rfl
    · simp only [readInt?, splitSign, readDigits?_eq_some_iff.2 ⟨hdigits, rfl⟩, Option.map_some,
        signed]
      rfl
    · simp only [readInt?, splitSign, readDigits?_eq_some_iff.2 ⟨hdigits, rfl⟩, Option.map_some,
        signed]
      rfl

/-- An integer that is in range is read as itself. -/
theorem toInt64?_eq_some_iff {n : Int} {m : Int64} : toInt64? n = some m ↔ m.toInt = n := by
  constructor
  · intro h
    unfold toInt64? at h
    split at h
    · next hrange =>
        cases h
        exact Int64.toInt_ofInt_of_le hrange.1 (Int.lt_add_one_of_le hrange.2)
    · cases h
  · rintro rfl
    exact toInt64?_toInt m

/-- An integer is out of range when no 64-bit integer is equal to it. -/
theorem toInt64?_eq_none_iff {n : Int} :
    toInt64? n = none ↔ ¬ (-2 ^ 63 ≤ n ∧ n < 2 ^ 63) := by
  have hmin : Int64.minValue.toInt = -2 ^ 63 := rfl
  have hmax : Int64.maxValue.toInt = 2 ^ 63 - 1 := rfl
  rw [toInt64?, hmin, hmax]
  split
  · next hrange =>
      simp only [reduceCtorEq, false_iff, not_not]
      omega
  · next hout =>
      simp only [true_iff]
      omega

/-- The 64-bit integers that are read are those with a numeral. -/
theorem readInt64?_eq_some_iff {cs : List Char} {m : Int64} :
    readInt64? cs = some m ↔ IsNumeral cs m.toInt := by
  simp only [readInt64?, Option.bind_eq_some_iff, readInt?_eq_some_iff, toInt64?_eq_some_iff,
    exists_eq_right']

/-- An integer literal is a numeral. -/
theorem exists_isNumeral_of_fits {cs : List Char} (h : Lexeme.long.Fits cs) :
    ∃ n, IsNumeral cs n := by
  have hdigits : isDigits (Lexeme.dropMinus cs) = true := Lexeme.isLong_iff.2 h
  unfold Lexeme.dropMinus at hdigits
  split at hdigits
  · exact ⟨_, .minus hdigits⟩
  · exact ⟨_, .unsigned hdigits⟩

end Numeric

/-! ### What a tree denotes -/

open Numeric (Double IsNumeral readDouble?)

/-- What a leaf of a class denotes: a symbol its text, and a literal the number that it spells, or a
fault if there is none. -/
inductive Lexeme.Denotes : Lexeme → String → Value → Prop where
  | symbol {text : String} : Denotes .symbol text (.symbol text)
  | integer {text : String} {m : Int64} : IsNumeral text.toList m.toInt →
      Denotes .long text (.integer m)
  | notInteger {text : String} : (∀ m : Int64, ¬ IsNumeral text.toList m.toInt) →
      Denotes .long text (.fault .badNum)
  | double {text : String} {x : Double} : readDouble? text.toList = some x → x.isFinite = true →
      Denotes .double text (.double x)
  | notDouble {text : String} : (∀ x, readDouble? text.toList = some x → x.isFinite = false) →
      Denotes .double text (.fault .badNum)

namespace Node

mutual

/-- A tree denotes a value of the same shape: a leaf what its class says, whatever hangs below it, and
a group the list of what its children denote, whatever its contents. -/
inductive Denotes : Node → Value → Prop where
  | leaf {lexeme : Lexeme} {contents : String} {children : List Node} {v : Value} :
      lexeme.Denotes contents v → Denotes ⟨(Kind.leaf lexeme).tag, contents, children⟩ v
  | root {contents : String} {children : List Node} {vs : List Value} :
      DenoteAll children vs → Denotes ⟨Kind.root.tag, contents, children⟩ (.sexpr vs)
  | sexpr {contents : String} {children : List Node} {vs : List Value} :
      DenoteAll children vs → Denotes ⟨Kind.sexpr.tag, contents, children⟩ (.sexpr vs)
  | qexpr {contents : String} {children : List Node} {vs : List Value} :
      DenoteAll children vs → Denotes ⟨Kind.qexpr.tag, contents, children⟩ (.qexpr vs)

/-- Several trees denote as many values, in the same order. -/
inductive DenoteAll : List Node → List Value → Prop where
  | nil : DenoteAll [] []
  | cons {node : Node} {nodes : List Node} {v : Value} {vs : List Value} :
      Denotes node v → DenoteAll nodes vs → DenoteAll (node :: nodes) (v :: vs)

end

end Node

open Value (ofLong ofDouble ofLeaf ofNode ofNodes)

/-- A leaf means what it denotes. -/
theorem Lexeme.denotes_ofLeaf (lexeme : Lexeme) (text : String) :
    lexeme.Denotes text (ofLeaf lexeme text) := by
  cases lexeme with
  | symbol => exact .symbol
  | long =>
      show Lexeme.long.Denotes text (ofLong text)
      unfold ofLong
      split
      · next hread => exact .integer (Numeric.readInt64?_eq_some_iff.1 hread)
      · next hread =>
          refine .notInteger fun m hm => ?_
          rw [Numeric.readInt64?_eq_some_iff.2 hm] at hread
          cases hread
  | double =>
      show Lexeme.double.Denotes text (ofDouble text)
      unfold ofDouble
      split
      · next x hread =>
          split
          · next hfinite => exact .double hread hfinite
          · next hfinite =>
              refine .notDouble fun y hy => ?_
              rw [hread] at hy
              cases hy
              exact eq_false_of_ne_true hfinite
      · next hread =>
          refine .notDouble fun y hy => ?_
          rw [hread] at hy
          cases hy

/-- A leaf denotes nothing but what it means. -/
theorem Lexeme.Denotes.eq_ofLeaf {lexeme : Lexeme} {text : String} {v : Value}
    (h : lexeme.Denotes text v) : v = ofLeaf lexeme text := by
  cases h with
  | symbol => rfl
  | integer hm => simp only [ofLeaf, ofLong, Numeric.readInt64?_eq_some_iff.2 hm]
  | notInteger hnone =>
      show _ = ofLong text
      unfold ofLong
      split
      · next m hread => exact absurd (Numeric.readInt64?_eq_some_iff.1 hread) (hnone m)
      · rfl
  | double hread hfinite => simp only [ofLeaf, ofDouble, hread, hfinite, if_true]
  | notDouble hnone =>
      show _ = ofDouble text
      unfold ofDouble
      split
      · next x hread => simp only [hnone x hread, Bool.false_eq_true, if_false]
      · rfl

/-- What a leaf denotes is what it means. -/
theorem Lexeme.denotes_iff {lexeme : Lexeme} {text : String} {v : Value} :
    lexeme.Denotes text v ↔ v = ofLeaf lexeme text :=
  ⟨Denotes.eq_ofLeaf, fun h => h ▸ denotes_ofLeaf lexeme text⟩

namespace Node

mutual

/-- A tree that denotes a value is adapted to it. -/
theorem Denotes.ofNode_eq : ∀ {node : Node} {v : Value}, node.Denotes v → ofNode node = .ok v
  | _, _, .leaf h => by simp only [ofNode, Kind.ofTag?_tag, h.eq_ofLeaf]
  | _, _, .root h => by simp only [ofNode, Kind.ofTag?_tag, h.ofNodes_eq, Except.map]
  | _, _, .sexpr h => by simp only [ofNode, Kind.ofTag?_tag, h.ofNodes_eq, Except.map]
  | _, _, .qexpr h => by simp only [ofNode, Kind.ofTag?_tag, h.ofNodes_eq, Except.map]

/-- Trees that denote values are adapted to them. -/
theorem DenoteAll.ofNodes_eq : ∀ {nodes : List Node} {vs : List Value}, DenoteAll nodes vs →
    ofNodes nodes = .ok vs
  | _, _, .nil => rfl
  | _, _, .cons h hs => by simp only [ofNodes, h.ofNode_eq, hs.ofNodes_eq]

end

/-! ### Nodes that are looked at -/

/-- The tags of groups. -/
def groupTags : List String := [">", "sexpr", "qexpr"]

/-- The tags that are known: those of groups and those of leaves. -/
def knownTags : List String := groupTags ++ ["long", "double", "symbol"]

mutual

/-- The nodes that are reached from the root of a tree through groups only, in preorder. -/
def reached : Node → List Node
  | ⟨tag, contents, children⟩ =>
      ⟨tag, contents, children⟩ :: if tag ∈ groupTags then reachedAll children else []

/-- The nodes that are reached from the roots of several trees, one tree after the other. -/
def reachedAll : List Node → List Node
  | [] => []
  | node :: rest => node.reached ++ reachedAll rest

end

/-- The first of some nodes with a tag that is not known. -/
def firstUnknown? (nodes : List Node) : Option Node :=
  nodes.find? fun node => node.tag ∉ knownTags

/-- The tags of no kind are those that are not known. -/
theorem Kind.ofTag?_eq_none_iff {tag : String} : ofTag? tag = none ↔ tag ∉ knownTags := by
  have htags : knownTags = all.map Kind.tag := rfl
  simp [ofTag?, htags, List.find?_eq_none]

/-- The tag of every kind is known. -/
theorem Kind.tag_mem_knownTags (kind : Kind) : kind.tag ∈ knownTags := by
  by_contra hunknown
  rw [← ofTag?_eq_none_iff, ofTag?_tag] at hunknown
  cases hunknown

/-- The tag of a leaf is not that of a group. -/
theorem Kind.leaf_tag_notMem_groupTags (lexeme : Lexeme) : (leaf lexeme).tag ∉ groupTags := by
  cases lexeme <;> decide

/-- A node with a known tag is passed over. -/
theorem firstUnknown?_known {node : Node} {nodes : List Node} (h : node.tag ∈ knownTags) :
    firstUnknown? (node :: nodes) = firstUnknown? nodes := by
  simp [firstUnknown?, h]

/-- The first unknown node of a group is that of its children. -/
theorem firstUnknown?_group {tag contents : String} {children : List Node} (h : tag ∈ groupTags) :
    firstUnknown? (reached ⟨tag, contents, children⟩) = firstUnknown? (reachedAll children) := by
  rw [reached, if_pos h, firstUnknown?_known]
  exact List.mem_append_left _ h

/-- There is no unknown node exactly when all tags are known. -/
theorem firstUnknown?_eq_none_iff {nodes : List Node} :
    firstUnknown? nodes = none ↔ ∀ node ∈ nodes, node.tag ∈ knownTags := by
  simp [firstUnknown?]

/-- The outcome for some trees is as it should be: the tag of the first unknown node that is reached,
or else what the trees denote. -/
inductive Judged {α : Type} (denotes : α → Prop) : Option Node → Except String α → Prop where
  | refused (node : Node) : Judged denotes (some node) (.error node.tag)
  | valued {v : α} : denotes v → Judged denotes none (.ok v)

/-- An outcome as it should be stays so when the value is wrapped. -/
theorem Judged.map {α β : Type} {denotes : α → Prop} {denotes' : β → Prop} {wrap : α → β}
    {first : Option Node} {outcome : Except String α} (h : Judged denotes first outcome)
    (hwrap : ∀ v, denotes v → denotes' (wrap v)) : Judged denotes' first (outcome.map wrap) := by
  cases h with
  | refused node => exact .refused node
  | valued hv => exact .valued (hwrap _ hv)

/-- A value that is the outcome is denoted. -/
theorem Judged.denotes_of_ok {α : Type} {denotes : α → Prop} {first : Option Node} {v : α}
    (h : Judged denotes first (.ok v)) : denotes v := by
  cases h
  assumption

mutual

/-- A tree is refused by the first unknown tag that is reached, or there is none and the tree has the
value that it denotes. -/
theorem ofNode_judged : ∀ tree : Node,
    Judged tree.Denotes (firstUnknown? tree.reached) (ofNode tree)
  | ⟨tag, contents, children⟩ => by
      have hchildren := ofNodes_judged children
      cases hkind : Kind.ofTag? tag with
      | none =>
          have hunknown := Kind.ofTag?_eq_none_iff.1 hkind
          have hfirst : firstUnknown? (reached ⟨tag, contents, children⟩) =
              some ⟨tag, contents, children⟩ := by
            simp [reached, firstUnknown?, hunknown]
          rw [hfirst]
          simp only [ofNode, hkind]
          exact .refused ⟨tag, contents, children⟩
      | some kind =>
          obtain rfl := Kind.eq_tag_of_ofTag? hkind
          cases kind with
          | leaf lexeme =>
              rw [reached, if_neg (Kind.leaf_tag_notMem_groupTags lexeme),
                firstUnknown?_known (Kind.tag_mem_knownTags _)]
              simp only [ofNode, hkind]
              exact .valued (.leaf (lexeme.denotes_ofLeaf contents))
          | root =>
              rw [firstUnknown?_group (by decide)]
              simp only [ofNode, hkind]
              exact hchildren.map fun _ => .root
          | sexpr =>
              rw [firstUnknown?_group (by decide)]
              simp only [ofNode, hkind]
              exact hchildren.map fun _ => .sexpr
          | qexpr =>
              rw [firstUnknown?_group (by decide)]
              simp only [ofNode, hkind]
              exact hchildren.map fun _ => .qexpr

/-- The outcome for some trees is as it should be. -/
theorem ofNodes_judged : ∀ trees : List Node,
    Judged (DenoteAll trees) (firstUnknown? (reachedAll trees)) (ofNodes trees)
  | [] => .valued .nil
  | tree :: rest => by
      have htree := ofNode_judged tree
      have hrest := ofNodes_judged rest
      -- an unknown tag in the first tree comes before those of the rest, and hides them
      have happend : firstUnknown? (reachedAll (tree :: rest)) =
          (firstUnknown? tree.reached).or (firstUnknown? (reachedAll rest)) :=
        List.find?_append
      rw [happend, ofNodes]
      generalize firstUnknown? tree.reached = first, ofNode tree = outcome at htree ⊢
      generalize firstUnknown? (reachedAll rest) = first', ofNodes rest = outcome' at hrest ⊢
      cases htree with
      | refused node => exact .refused node
      | valued hv =>
          cases hrest with
          | refused node => exact .refused node
          | valued hvs => exact .valued (.cons hv hvs)

end

end Node

namespace Value

open Node (firstUnknown? knownTags)

/-- A tree has the value that it denotes, and no other. -/
theorem adapt_eq_ok_iff {tree : Node} {v : Value} : adapt tree = .ok v ↔ tree.Denotes v := by
  constructor
  · intro h
    unfold adapt at h
    split at h
    · next w hw =>
        cases h
        exact (hw ▸ tree.ofNode_judged).denotes_of_ok
    · cases h
  · intro h
    rw [adapt, h.ofNode_eq]

/-- A tree is refused by the first unknown tag that is reached. -/
theorem adapt_eq_error_iff {tree : Node} {cause : InputError} :
    adapt tree = .error cause ↔
      ∃ node, firstUnknown? tree.reached = some node ∧ cause = .unknownTag node.tag := by
  have hjudged := tree.ofNode_judged
  unfold adapt
  generalize firstUnknown? tree.reached = first, ofNode tree = outcome at hjudged ⊢
  cases hjudged with
  | refused node => simp [eq_comm]
  | valued hv => simp

/-- A tree is refused exactly when it reaches a node with an unknown tag. -/
theorem exists_adapt_eq_error_iff {tree : Node} :
    (∃ cause, adapt tree = .error cause) ↔ ∃ node ∈ tree.reached, node.tag ∉ knownTags := by
  simp only [adapt_eq_error_iff]
  constructor
  · rintro ⟨-, node, hfirst, -⟩
    have hunknown := List.find?_some hfirst
    exact ⟨node, List.mem_of_find?_eq_some hfirst, of_decide_eq_true hunknown⟩
  · rintro ⟨node, hmem, hunknown⟩
    cases hfirst : firstUnknown? tree.reached with
    | some first => exact ⟨_, first, rfl, rfl⟩
    | none => exact absurd (Node.firstUnknown?_eq_none_iff.1 hfirst node hmem) hunknown

end Value

/-! ### Lines -/

/-- A numeral of an integer literal denotes the integer, exactly, if it is in range, and a fault if it
is not. -/
theorem Lexeme.denotes_long_iff {text : String} {n : Int} (h : IsNumeral text.toList n) {w : Value} :
    Lexeme.long.Denotes text w ↔
      if -2 ^ 63 ≤ n ∧ n < 2 ^ 63 then ∃ m : Int64, m.toInt = n ∧ w = .integer m
      else w = .fault .badNum := by
  have hread : Numeric.readInt64? text.toList = Numeric.toInt64? n := by
    rw [Numeric.readInt64?, Numeric.readInt?_eq_some_iff.2 h, Option.bind_some]
  have hvalue : ofLeaf .long text = ofLong text := rfl
  rw [denotes_iff, hvalue, ofLong, hread]
  cases hinteger : Numeric.toInt64? n with
  | none => rw [if_neg (Numeric.toInt64?_eq_none_iff.1 hinteger)]
  | some m =>
      have hrange : -2 ^ 63 ≤ n ∧ n < 2 ^ 63 := by
        by_contra hout
        rw [Numeric.toInt64?_eq_none_iff.2 hout] at hinteger
        cases hinteger
      rw [if_pos hrange]
      constructor
      · rintro rfl
        exact ⟨m, Numeric.toInt64?_eq_some_iff.1 hinteger, rfl⟩
      · rintro ⟨m', hm', rfl⟩
        rw [Numeric.toInt64?_eq_some_iff.2 hm'] at hinteger
        cases hinteger
        rfl

/-- A session refuses a line exactly when the line cannot be read, and nothing has happened then. -/
theorem Session.evalLine_eq_error_iff {bound : Nat} {heap heap' : Heap} {scope : ScopeId}
    {line : List Char} {cause : InputError} :
    evalLine bound heap scope line = some (.error cause, heap') ↔
      heap' = heap ∧ ∃ reason, cause = .unreadable reason ∧ Node.read line = .error reason := by
  rw [← Value.parse_eq_error_iff]
  constructor
  · intro h
    rcases evalLine_cases h with ⟨cause', hcause, hheap, hparse⟩ | ⟨_, _, -, hresult, -⟩
    · cases hcause
      exact ⟨hheap, hparse⟩
    · cases hresult
  · rintro ⟨rfl, hparse⟩
    simp only [evalLine, hparse]

open Value (adapt parse)

/-- **A tree is refused exactly for an unknown tag, and what is read is never refused.** Among the nodes
that are reached from the root of a tree through groups only, the first in preorder with an unknown tag
is the one that is named; if there is none, the tree has the value that it denotes, which has its shape.
So a line that can be read has a value, without functions and without faults but that of a number out
of range; an integer literal in it is the integer of its numeral if that is in range. A session refuses
a line only because it cannot be read, and its heap is left alone. -/
theorem trees_are_refused_exactly_for_unknown_tags :
    (∀ tree : Node,
      ((∃ cause, adapt tree = .error cause) ↔ ∃ node ∈ tree.reached, node.tag ∉ Node.knownTags) ∧
      (∀ cause, adapt tree = .error cause ↔
        ∃ node, Node.firstUnknown? tree.reached = some node ∧ cause = .unknownTag node.tag) ∧
      ∀ v, adapt tree = .ok v ↔ tree.Denotes v) ∧
    (∀ (line : List Char) (tree : Node), Node.read line = .ok tree →
      ∃ v, adapt tree = .ok v ∧ parse line = .ok v ∧ tree.Denotes v ∧ v.Plain ∧
        ∀ text, (Lexeme.long, text) ∈ tree.leaves → ∃ n, IsNumeral text.toList n ∧
          ∀ w, Lexeme.long.Denotes text w ↔
            if -2 ^ 63 ≤ n ∧ n < 2 ^ 63 then ∃ m : Int64, m.toInt = n ∧ w = .integer m
            else w = .fault .badNum) ∧
    ∀ (bound : Nat) (heap heap' : Heap) (scope : ScopeId) (line : List Char) (cause : InputError),
      Session.evalLine bound heap scope line = some (.error cause, heap') ↔
        heap' = heap ∧ ∃ reason, cause = .unreadable reason ∧ Node.read line = .error reason := by
  refine ⟨fun tree => ⟨Value.exists_adapt_eq_error_iff, fun _ => Value.adapt_eq_error_iff,
    fun _ => Value.adapt_eq_ok_iff⟩, ?_, fun _ _ _ _ _ _ => Session.evalLine_eq_error_iff⟩
  intro line tree hread
  obtain ⟨-, vs, -, -, -, hparse⟩ := Value.exists_parse_of_read hread
  have hadapt : adapt tree = .ok (.sexpr vs) := by
    rw [parse, hread] at hparse
    exact hparse
  refine ⟨.sexpr vs, hadapt, hparse, Value.adapt_eq_ok_iff.1 hadapt, Value.plain_of_parse hparse, ?_⟩
  intro text hleaf
  obtain ⟨n, hn⟩ := Numeric.exists_isNumeral_of_fits (Node.fits_of_read hread _ hleaf)
  exact ⟨n, hn, fun _ => Lexeme.denotes_long_iff hn⟩

section Sample

/-- A tree with unknown tags: one below a leaf, one in a list, one below that one, and one behind the
list. -/
def foreignTree : Node :=
  ⟨">", "", [⟨"long", "7", [⟨"comment", "", []⟩]⟩,
    ⟨"qexpr", "", [⟨"string", "hi", [⟨"char", "h", []⟩]⟩]⟩, ⟨"regex", ".", []⟩]⟩

/-- A line with leading zeros, and with the least integer that is out of range. -/
def numeralLine : List Char := "x \x7b-0042\x7d 9223372036854775808".toList

/-- The tree of that line. -/
def numeralTree : Node :=
  .group .root [.leaf .symbol "x".toList, .group .qexpr [.leaf .long "-0042".toList],
    .leaf .long "9223372036854775808".toList]

/-- Of the unknown tags that are reached the first is named, and what hangs below a leaf is not looked
at. The numerals of the line are an integer and a fault. -/
theorem string_in_a_list_is_refused :
    let v : Value := .sexpr [.symbol "x", .qexpr [.integer (-42)], .fault .badNum]
    adapt foreignTree = .error (.unknownTag "string") ∧ Node.read numeralLine = .ok numeralTree ∧
      parse numeralLine = .ok v ∧ numeralTree.Denotes v ∧ v.Plain := by
  intro v
  obtain ⟨htrees, hlines, -⟩ := trees_are_refused_exactly_for_unknown_tags
  have hunknown : adapt foreignTree = .error (.unknownTag "string") :=
    ((htrees foreignTree).2.1 _).2 ⟨⟨"string", "hi", [⟨"char", "h", []⟩]⟩, by cbv, rfl⟩
  have hread : Node.read numeralLine = .ok numeralTree := by cbv
  have hinteger : Lexeme.long.Denotes "-0042" (.integer (-42)) := .integer (.minus (by decide))
  have hfault : Lexeme.long.Denotes "9223372036854775808" (.fault .badNum) := by
    have hnumeral : IsNumeral "9223372036854775808".toList (2 ^ 63) := .unsigned (by decide)
    rw [Lexeme.denotes_long_iff hnumeral, if_neg (by decide)]
  have hdenotes : numeralTree.Denotes v :=
    .root (.cons (.leaf .symbol) (.cons (.qexpr (.cons (.leaf hinteger) .nil))
      (.cons (.leaf hfault) .nil)))
  obtain ⟨w, hadapt, hparse, -, hplain, -⟩ := hlines numeralLine numeralTree hread
  rw [((htrees numeralTree).2.2 v).2 hdenotes] at hadapt
  cases hadapt
  exact ⟨hunknown, hread, hparse, hdenotes, hplain⟩

end Sample

end QuoteLisp
