import QuoteLisp.Proofs.Grammar
import QuoteLisp.Proofs.Numerals
import QuoteLisp.Value.OfNode
import QuoteLisp.Value.Text

/-!
# Printed values read back

A value made of numbers, symbols and lists is printed so that it can be read again. The printed form
of each value has the tokens of a tree that means the value (`StandsFor`): a number or a symbol is one
word of the right class, and a list is its items between brackets, where spaces and brackets keep the
words apart. The reader takes every tree that is written as tokens back, so it finds that tree, and
the tree means the value that was printed.
-/

set_option autoImplicit false

namespace QuoteLisp

namespace Node

mutual

/-- No comment is written. -/
theorem significant_write : ∀ node : Node, Token.significant node.write = node.write
  | ⟨tag, contents, children⟩ => by
      have hgroup (bracket : Bracket) :
          Token.significant (.opening bracket :: (writeAll children ++ [.closing bracket])) =
            .opening bracket :: (writeAll children ++ [.closing bracket]) := by
        rw [← List.singleton_append, Token.significant_append, Token.significant_append,
          significant_writeAll children]
        rfl
      unfold write
      split
      · exact hgroup .round
      · exact hgroup .brace
      · rfl

/-- The tokens of nodes are all significant. -/
theorem significant_writeAll : ∀ nodes : List Node,
    Token.significant (writeAll nodes) = writeAll nodes
  | [] => rfl
  | node :: nodes => by
      rw [writeAll, Token.significant_append, significant_write node, significant_writeAll nodes]

end

end Node

namespace Value

open Token (EndsWord scan)

mutual

/-- A value that can be read back: made of integers, finite doubles, symbols whose names fit the
class of symbols, and lists of such values. -/
def Readable : Value → Prop
  | .integer _ => True
  | .double x => x.isFinite = true
  | .symbol name => Lexeme.symbol.Fits name.toList
  | .sexpr items => AreReadable items
  | .qexpr items => AreReadable items
  | .fault _ => False
  | .builtin _ => False
  | .lambda _ _ _ => False

/-- Values that can be read back. -/
def AreReadable : List Value → Prop
  | [] => True
  | v :: vs => v.Readable ∧ AreReadable vs

end

/-- A node stands for a value: it is a proper expression, it means the value, and the printed form of
the value has the tokens that are written of the node, whatever comes after it that ends a word. -/
structure StandsFor (node : Node) (v : Value) : Prop where
  isExpr : node.IsExpr
  means : ofNode node = .ok v
  scan_spell : ∀ rest, EndsWord rest → scan (v.spell ++ rest) = node.write ++ scan rest

/-- Nodes stand for values that are printed with spaces between them. -/
structure StandForAll (nodes : List Node) (vs : List Value) : Prop where
  areExprs : Node.AreExprs nodes
  means : ofNodes nodes = .ok vs
  scan_spaced : ∀ rest, EndsWord rest →
    scan (spaced (spellEach vs) ++ rest) = Node.writeAll nodes ++ scan rest

/-! ### Words -/

/-- A leaf stands for a value that is printed as a word which fits the class of the leaf. -/
theorem standsFor_leaf {lexeme : Lexeme} {v : Value} (hfits : lexeme.Fits v.spell)
    (hmeans : ofLeaf lexeme (String.ofList v.spell) = v) :
    StandsFor (Node.leaf lexeme v.spell) v where
  isExpr := Node.isExpr_leaf.2 hfits
  means := by
    simp only [Node.leaf, ofNode, Node.Kind.ofTag?_tag, hmeans]
  scan_spell := by
    intro rest hrest
    rw [Token.scan_word hfits.ne_nil hfits.isWordChar hrest, Node.write_leaf,
      List.singleton_append]

/-- An integer is stood for by a leaf of its numeral. -/
theorem standsFor_integer (n : Int64) :
    StandsFor (Node.leaf .long (Value.integer n).spell) (.integer n) := by
  apply standsFor_leaf
  · exact Numeric.fits_writeInt n.toInt
  · simp [ofLeaf, ofLong, spell, Numeric.readInt64?_writeInt]

/-- A finite double is stood for by a leaf of its shortest decimal. -/
theorem standsFor_double {x : Numeric.Double} (hx : x.isFinite = true) :
    StandsFor (Node.leaf .double (Value.double x).spell) (.double x) := by
  apply standsFor_leaf
  · exact Numeric.fits_writeDouble hx
  · simp [ofLeaf, ofDouble, spell, Numeric.readDouble?_writeDouble hx, hx]

/-- A symbol whose name fits the class is stood for by a leaf of its name. -/
theorem standsFor_symbol {name : String} (hname : Lexeme.symbol.Fits name.toList) :
    StandsFor (Node.leaf .symbol (Value.symbol name).spell) (.symbol name) := by
  apply standsFor_leaf
  · exact hname
  · simp [ofLeaf, spell]

/-! ### Lists -/

/-- No nodes stand for no values. -/
theorem standForAll_nil : StandForAll [] [] where
  areExprs := trivial
  means := rfl
  scan_spaced := fun _ _ => rfl

/-- One node stands for one value. -/
theorem standForAll_singleton {node : Node} {v : Value} (h : StandsFor node v) :
    StandForAll [node] [v] where
  areExprs := ⟨h.isExpr, trivial⟩
  means := by simp [ofNodes, h.means]
  scan_spaced := by
    intro rest hrest
    simp [spellEach, spaced_singleton, Node.writeAll, h.scan_spell rest hrest]

/-- The space after an item ends its last word. -/
theorem standForAll_cons {node : Node} {v w : Value} {nodes : List Node} {vs : List Value}
    (h : StandsFor node v) (hs : StandForAll nodes (w :: vs)) :
    StandForAll (node :: nodes) (v :: w :: vs) where
  areExprs := ⟨h.isExpr, hs.areExprs⟩
  means := by simp [ofNodes, h.means, hs.means]
  scan_spaced := by
    intro rest hrest
    have hspaced : spaced (spellEach (v :: w :: vs)) =
        v.spell ++ ' ' :: spaced (spellEach (w :: vs)) := by
      rw [spellEach, spellEach, spaced_cons_cons]
    have hspace : EndsWord (' ' :: (spaced (spellEach (w :: vs)) ++ rest)) :=
      Token.endsWord_cons (by decide) _
    rw [hspaced, List.append_assoc, List.cons_append, h.scan_spell _ hspace,
      Token.scan_separator Text.isSeparator_space, hs.scan_spaced rest hrest, Node.writeAll,
      List.append_assoc]

/-- A group stands for a list that is printed in its brackets. -/
theorem standsFor_group (bracket : Bracket) {v : Value} {nodes : List Node} {vs : List Value}
    (hs : StandForAll nodes vs)
    (hspell : v.spell = bracket.opener :: spaced (spellEach vs) ++ [bracket.closer])
    (hmeans : ofNode (Node.group (.ofBracket bracket) nodes) = .ok v) :
    StandsFor (Node.group (.ofBracket bracket) nodes) v where
  isExpr := Node.isExpr_group.2 hs.areExprs
  means := hmeans
  scan_spell := by
    intro rest hrest
    have hopener := Token.ofBracket?_opener bracket
    have hcloser := Token.ofBracket?_closer bracket
    have hend : EndsWord (bracket.closer :: rest) :=
      Token.endsWord_cons (by cases bracket <;> decide) _
    rw [hspell, List.append_assoc, List.cons_append, List.singleton_append,
      Token.scan_bracket hopener, hs.scan_spaced _ hend, Token.scan_bracket hcloser,
      Node.write_group, List.cons_append, List.append_assoc, List.singleton_append]

/-- A list is stood for by a group in round brackets. -/
theorem standsFor_sexpr {nodes : List Node} {vs : List Value} (hs : StandForAll nodes vs) :
    StandsFor (Node.group (.ofBracket .round) nodes) (.sexpr vs) := by
  apply standsFor_group .round hs
  · simp [spell, Bracket.opener, Bracket.closer]
  · simp [Node.group, Node.Kind.ofBracket, ofNode, Node.Kind.ofTag?_tag, hs.means, Except.map]

/-- A quoted list is stood for by a group in braces. -/
theorem standsFor_qexpr {nodes : List Node} {vs : List Value} (hs : StandForAll nodes vs) :
    StandsFor (Node.group (.ofBracket .brace) nodes) (.qexpr vs) := by
  apply standsFor_group .brace hs
  · simp [spell, Bracket.opener, Bracket.closer]
  · simp [Node.group, Node.Kind.ofBracket, ofNode, Node.Kind.ofTag?_tag, hs.means, Except.map]

mutual

/-- Some node stands for every value that can be read back. -/
theorem Readable.exists_standsFor : ∀ {v : Value}, v.Readable → ∃ node, StandsFor node v
  | .integer n, _ => ⟨_, standsFor_integer n⟩
  | .double _, hx => ⟨_, standsFor_double hx⟩
  | .symbol _, hname => ⟨_, standsFor_symbol hname⟩
  | .sexpr _, hitems => by
      obtain ⟨nodes, hnodes⟩ := AreReadable.exists_standForAll hitems
      exact ⟨_, standsFor_sexpr hnodes⟩
  | .qexpr _, hitems => by
      obtain ⟨nodes, hnodes⟩ := AreReadable.exists_standForAll hitems
      exact ⟨_, standsFor_qexpr hnodes⟩
  | .fault _, h => absurd h id
  | .builtin _, h => absurd h id
  | .lambda _ _ _, h => absurd h id

/-- Values that can be read back have nodes that stand for them. -/
theorem AreReadable.exists_standForAll : ∀ {vs : List Value}, AreReadable vs →
    ∃ nodes, StandForAll nodes vs
  | [], _ => ⟨[], standForAll_nil⟩
  | [_], h => by
      obtain ⟨node, hnode⟩ := Readable.exists_standsFor h.1
      exact ⟨[node], standForAll_singleton hnode⟩
  | _ :: w :: vs, h => by
      obtain ⟨node, hnode⟩ := Readable.exists_standsFor h.1
      obtain ⟨nodes, hnodes⟩ := AreReadable.exists_standForAll h.2
      exact ⟨node :: nodes, standForAll_cons hnode hnodes⟩

end

/-! ### Reading -/

/-- The printed form of a value is read as the node that stands for it. -/
theorem StandsFor.read_spell {node : Node} {v : Value} (h : StandsFor node v) :
    Node.read v.spell = .ok (Node.group .root [node]) := by
  have hscan := h.scan_spell [] Token.endsWord_nil
  rw [List.append_nil, Token.scan_nil, List.append_nil] at hscan
  have htokens : Node.writeAll [node] = node.write := by simp [Node.writeAll]
  rw [Node.read, Token.tokenize_eq_ok_scan, hscan]
  show Node.ofTokens (Token.significant node.write) = _
  rw [Node.significant_write]
  exact Node.ofTokens_eq_ok_iff.2 ⟨[node], by simp, ⟨h.isExpr, trivial⟩, rfl, htokens⟩

/-- **Reading back what was printed gives the same value.** The printed form of every value that is
made of integers, finite doubles, symbols that are spelled as symbols, and lists of such values can
be read, and the tree that is read means the list of that one value. -/
theorem read_text_of_readable {v : Value} (hv : v.Readable) :
    ∃ node, Node.read v.text.toList = .ok node ∧ adapt node = .ok (.sexpr [v]) := by
  obtain ⟨node, hnode⟩ := hv.exists_standsFor
  refine ⟨Node.group .root [node], ?_, ?_⟩
  · rw [text, String.toList_ofList]
    exact hnode.read_spell
  · simp [adapt, Node.group, ofNode, ofNodes, Node.Kind.ofTag?_tag, hnode.means, Except.map]

/-- A value at the edges of what can be read back: the least integer, the largest negative double, an
empty list, and symbols that look like the start of a number. -/
def edges : Value :=
  .sexpr [.integer Int64.minValue, .qexpr [.double ⟨0x8000000000000001⟩, .symbol "-", .sexpr []],
    .symbol "-x"]

/-- The least integer, the largest negative double, an empty list and symbols that start like
numbers are read back. -/
theorem read_text_edges :
    edges.text = "(-9223372036854775808 \x7b-5e-324 - ()\x7d -x)" ∧ edges.Readable ∧
      ∃ node, Node.read edges.text.toList = .ok node ∧ adapt node = .ok (.sexpr [edges]) := by
  have hminus : Lexeme.symbol.Fits "-".toList := Lexeme.classify?_eq_some_iff.1 (by decide)
  have hminusx : Lexeme.symbol.Fits "-x".toList := Lexeme.classify?_eq_some_iff.1 (by decide)
  have hfinite : (⟨0x8000000000000001⟩ : Numeric.Double).isFinite = true := by decide
  have hreadable : edges.Readable :=
    ⟨trivial, ⟨hfinite, hminus, trivial, trivial⟩, hminusx, trivial⟩
  exact ⟨by decide +kernel, hreadable, read_text_of_readable hreadable⟩

end Value

end QuoteLisp
