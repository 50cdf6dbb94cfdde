import QuoteLisp.Proofs.BracketScan
import QuoteLisp.Proofs.Sessions

/-!
# The program of a text

What the reader accepts always means something: every proper expression has a value, so a text that
can be read spells a program, which has at least one item (`Value.exists_parse_of_read`), and a text
spells none only because it cannot be read. The reader also vouches for the words of its leaves, that
they fit the classes they are filed under, so every symbol of a program is spelled as a symbol.
-/

set_option autoImplicit false

namespace QuoteLisp

namespace Node

open Token (scan significant)

/-- The reader looks at the tokens of a text only, comments aside. -/
theorem read_eq_ofTokens (text : List Char) : read text = ofTokens (significant (scan text)) := by
  rw [read, Token.tokenize_eq_ok_scan]

/-- A text is read exactly when its tokens, comments aside, are those of proper expressions, at
least one. -/
theorem read_eq_ok_iff {text : List Char} {tree : Node} :
    read text = .ok tree ↔
      ∃ children, children ≠ [] ∧ AreExprs children ∧ tree = group .root children ∧
        writeAll children = significant (scan text) := by
  rw [read_eq_ofTokens, ofTokens_eq_ok_iff]

/-- An error of the reader is that of a text without tokens, or the first event of a pass. -/
theorem read_eq_error_cases {text : List Char} {cause : ReadError} (h : read text = .error cause) :
    (cause = .empty ∧ significant (scan text) = []) ∨
      firstEvent? [] (significant (scan text)) = some cause := by
  have hevent := firstEvent?_readForms [] (noComment_significant (scan text))
  rw [read_eq_ofTokens, ofTokens] at h
  split at h
  · next hempty =>
      cases h
      exact .inl ⟨rfl, List.isEmpty_iff.1 hempty⟩
  · cases hforms : readForms [] (significant (scan text)) with
    | error cause' =>
        rw [hforms] at h hevent
        cases h
        exact .inr hevent
    | ok nodes =>
        rw [hforms] at h
        cases h

/-- The first event of a pass over the tokens of a text is the error of the reader. -/
theorem read_eq_error_of_firstEvent? {text : List Char} {cause : ReadError}
    (h : firstEvent? [] (scan text) = some cause) : read text = .error cause := by
  rw [← firstEvent?_significant] at h
  have hne : ¬ (significant (scan text)).isEmpty = true := by
    intro hempty
    rw [List.isEmpty_iff.1 hempty] at h
    cases h
  rw [firstEvent?_readForms [] (noComment_significant (scan text))] at h
  rw [read_eq_ofTokens, ofTokens, if_neg hne]
  cases hforms : readForms [] (significant (scan text)) with
  | error cause' =>
      rw [hforms] at h
      cases h
      rfl
  | ok nodes =>
      rw [hforms] at h
      cases h

/-- A text is empty for the reader exactly when it has no tokens but comments. -/
theorem read_eq_error_empty_iff {text : List Char} :
    read text = .error .empty ↔ significant (scan text) = [] := by
  constructor
  · intro h
    rcases read_eq_error_cases h with ⟨-, htokens⟩ | hevent
    · exact htokens
    · exact absurd hevent firstEvent?_real.1
  · intro h
    rw [read_eq_ofTokens, h]
    rfl

/-! ### Proper expressions have values -/

end Node

namespace Value

/-- A leaf means what its text means in its class. -/
theorem ofNode_leaf (lexeme : Lexeme) (text : List Char) :
    ofNode (Node.leaf lexeme text) = .ok (ofLeaf lexeme (String.ofList text)) := by
  simp only [Node.leaf, ofNode, Node.Kind.ofTag?_tag]

/-- The list in these brackets: a program in round ones, data in braces. -/
def inBrackets : Bracket → List Value → Value
  | .round => .sexpr
  | .brace => .qexpr

/-- A group means the list of what its children mean. -/
theorem ofNode_group {bracket : Bracket} {children : List Node} {vs : List Value}
    (h : ofNodes children = .ok vs) :
    ofNode (Node.group (.ofBracket bracket) children) = .ok (inBrackets bracket vs) := by
  cases bracket <;>
    simp [Node.group, ofNode, Node.Kind.ofBracket, Node.Kind.ofTag?_tag, h, Except.map, inBrackets]

end Value

namespace Node

mutual

/-- Every proper expression means a value. -/
theorem IsExpr.exists_ofNode : ∀ {node : Node}, node.IsExpr → ∃ v, Value.ofNode node = .ok v
  | ⟨tag, contents, children⟩, hexpr => by
      rcases hexpr.cases with ⟨lexeme, text, heq, -⟩ | ⟨bracket, children', heq, hchildren⟩
      · rw [heq]
        exact ⟨_, Value.ofNode_leaf lexeme text⟩
      · obtain rfl : children = children' := congrArg Node.children heq
        obtain ⟨vs, hvs, -⟩ := hchildren.exists_ofNodes
        rw [heq]
        exact ⟨_, Value.ofNode_group hvs⟩

/-- Proper expressions mean as many values. -/
theorem AreExprs.exists_ofNodes : ∀ {nodes : List Node}, AreExprs nodes →
    ∃ vs, Value.ofNodes nodes = .ok vs ∧ vs.length = nodes.length
  | [], _ => ⟨[], rfl, rfl⟩
  | node :: nodes, hexprs => by
      obtain ⟨v, hv⟩ := hexprs.1.exists_ofNode
      obtain ⟨vs, hvs, hlength⟩ := AreExprs.exists_ofNodes hexprs.2
      exact ⟨v :: vs, by simp only [Value.ofNodes, hv, hvs], by simp [hlength]⟩

end

/-! ### Leaves fit their classes -/

mutual

/-- The leaves of a proper expression fit their classes. -/
theorem IsExpr.fits_of_mem_leaves : ∀ {node : Node}, node.IsExpr →
    ∀ leaf ∈ node.leaves, leaf.1.Fits leaf.2.toList
  | ⟨tag, contents, children⟩, hexpr => by
      rcases hexpr.cases with ⟨lexeme, text, heq, hfits⟩ | ⟨bracket, children', heq, hchildren⟩
      · rw [heq]
        simpa [leaf, leaves, Kind.ofTag?_tag] using hfits
      · obtain rfl : children = children' := congrArg Node.children heq
        have hleaves : leaves (group (.ofBracket bracket) children) = leavesAll children := by
          cases bracket <;> simp [group, leaves, Kind.ofBracket, Kind.ofTag?_tag]
        rw [heq, hleaves]
        exact hchildren.fits_of_mem_leavesAll

/-- The leaves of proper expressions fit their classes. -/
theorem AreExprs.fits_of_mem_leavesAll : ∀ {nodes : List Node}, AreExprs nodes →
    ∀ leaf ∈ leavesAll nodes, leaf.1.Fits leaf.2.toList
  | [], _ => by simp [leavesAll]
  | node :: nodes, hexprs => by
      intro leaf hleaf
      rcases List.mem_append.1 hleaf with hleaf | hleaf
      · exact hexprs.1.fits_of_mem_leaves leaf hleaf
      · exact AreExprs.fits_of_mem_leavesAll hexprs.2 leaf hleaf

end

/-- The leaves of a tree that was read fit their classes. -/
theorem fits_of_read {text : List Char} {tree : Node} (h : read text = .ok tree) :
    ∀ leaf ∈ tree.leaves, leaf.1.Fits leaf.2.toList := by
  obtain ⟨children, -, hchildren, rfl, -⟩ := read_eq_ok_iff.1 h
  have hleaves : leaves (group .root children) = leavesAll children := by
    simp [group, leaves, Kind.ofTag?_tag]
  rw [hleaves]
  exact hchildren.fits_of_mem_leavesAll

end Node

namespace Value

/-- The program of a text is the list of what its expressions mean. -/
theorem adapt_root {children : List Node} {vs : List Value} (h : ofNodes children = .ok vs) :
    adapt (Node.group .root children) = .ok (.sexpr vs) := by
  simp [adapt, Node.group, ofNode, Node.Kind.ofTag?_tag, h, Except.map]

/-- A text that can be read spells a program. -/
theorem exists_parse_of_read {text : List Char} {tree : Node} (h : Node.read text = .ok tree) :
    ∃ children vs, tree = Node.group .root children ∧ children ≠ [] ∧
      ofNodes children = .ok vs ∧ parse text = .ok (.sexpr vs) := by
  obtain ⟨children, hne, hchildren, rfl, -⟩ := Node.read_eq_ok_iff.1 h
  obtain ⟨vs, hvs, -⟩ := hchildren.exists_ofNodes
  exact ⟨children, vs, rfl, hne, hvs, by rw [parse, h]; exact adapt_root hvs⟩

/-- A text spells no program only because it cannot be read. -/
theorem parse_eq_error_iff {text : List Char} {cause : InputError} :
    parse text = .error cause ↔ ∃ reason, cause = .unreadable reason ∧
      Node.read text = .error reason := by
  cases hread : Node.read text with
  | error reason => simp [parse, hread, eq_comm]
  | ok tree =>
      obtain ⟨children, vs, -, -, -, hparse⟩ := exists_parse_of_read hread
      simp [hparse]

/-- The symbols of a program are spelled as symbols. -/
theorem fits_of_mem_parts_of_parse {text : List Char} {program : Value} {name : String}
    (h : parse text = .ok program) (hname : .symbol name ∈ program.parts) :
    Lexeme.symbol.Fits name.toList := by
  obtain ⟨tree, hread, hnode⟩ := exists_tree_of_parse h
  rcases isList_or_ofLeaf_of_ofNode hnode _ hname with hlist | ⟨⟨lexeme, word⟩, hleaf, heq⟩
  · cases hlist
  · have hfits := Node.fits_of_read hread _ hleaf
    cases lexeme with
    | symbol =>
        cases heq
        exact hfits
    | long =>
        simp only [ofLeaf, ofLong] at heq
        split at heq <;> cases heq
    | double =>
        simp only [ofLeaf, ofDouble] at heq
        split at heq
        · split at heq <;> cases heq
        · cases heq

end Value

end QuoteLisp
