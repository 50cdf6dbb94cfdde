import QuoteLisp.Node.Read
import QuoteLisp.Proofs.Effects
import QuoteLisp.Proofs.Patterns

/-!
# What the reader accepts

A tree is written out as tokens: a leaf as its word, a group as its children between brackets. The
reader goes the other way. This file shows that it goes exactly the other way: what it reads off some
tokens is a proper expression and is written as the tokens it took (`readForm_sound`), and a proper
expression that is written out is read back, whatever comes after it (`readsForm_write`). So the reader
accepts a text with a tree exactly when the tree is proper and is written as the tokens of the text,
comments aside, and no text has two such trees.
-/

set_option autoImplicit false

namespace QuoteLisp

namespace Node

/-! ### Writing a tree -/

mutual

/-- The tokens of a node: its contents as a word, or its children in their brackets. -/
def write : Node → List Token
  | ⟨tag, contents, children⟩ =>
      match Kind.ofTag? tag with
      | some .sexpr => .opening .round :: (writeAll children ++ [.closing .round])
      | some .qexpr => .opening .brace :: (writeAll children ++ [.closing .brace])
      | _ => [.word contents.toList]

/-- The tokens of several nodes. -/
def writeAll : List Node → List Token
  | [] => []
  | node :: rest => node.write ++ writeAll rest

end

mutual

/-- A proper expression: a group without contents whose children are proper expressions, or a leaf
without children whose contents fit the class that its tag names. -/
def IsExpr : Node → Prop
  | ⟨tag, contents, children⟩ =>
      match Kind.ofTag? tag with
      | some .sexpr | some .qexpr => contents = "" ∧ AreExprs children
      | some (.leaf lexeme) => children = [] ∧ lexeme.Fits contents.toList
      | some .root | none => False

/-- Proper expressions one after the other. -/
def AreExprs : List Node → Prop
  | [] => True
  | node :: rest => node.IsExpr ∧ AreExprs rest

end

/-- The tree of a text by the grammar: a root without contents, with at least one child, whose
children are proper expressions and are written as the tokens of the text, comments aside. -/
def IsParse (text : List Char) (tree : Node) : Prop :=
  tree.tag = Kind.root.tag ∧ tree.contents = "" ∧ tree.children ≠ [] ∧ AreExprs tree.children ∧
    ∃ tokens, Token.tokenize text = .ok tokens ∧ writeAll tree.children = Token.significant tokens

/-- A kind is found by its own tag only. -/
theorem Kind.eq_tag_of_ofTag? {tag : String} {kind : Kind} (h : ofTag? tag = some kind) :
    tag = kind.tag := by
  have hfind := List.find?_some h
  exact (beq_iff_eq.1 hfind).symm

/-- A leaf is written as a single word. -/
@[simp]
theorem write_leaf (lexeme : Lexeme) (text : List Char) : (leaf lexeme text).write = [.word text] := by
  simp [leaf, write, Kind.ofTag?_tag]

/-- A group is written as its children in its brackets. -/
@[simp]
theorem write_group (bracket : Bracket) (children : List Node) :
    (group (.ofBracket bracket) children).write =
      .opening bracket :: (writeAll children ++ [.closing bracket]) := by
  cases bracket <;> simp [group, write, Kind.ofBracket, Kind.ofTag?_tag]

/-- A leaf is proper when its text fits its class. -/
theorem isExpr_leaf {lexeme : Lexeme} {text : List Char} :
    (leaf lexeme text).IsExpr ↔ lexeme.Fits text := by
  simp [leaf, IsExpr, Kind.ofTag?_tag]

/-- A group is proper when its children are. -/
theorem isExpr_group {bracket : Bracket} {children : List Node} :
    (group (.ofBracket bracket) children).IsExpr ↔ AreExprs children := by
  cases bracket <;> simp [group, IsExpr, Kind.ofBracket, Kind.ofTag?_tag]

/-- A proper expression is a leaf with a word that fits or a group of proper expressions. -/
theorem IsExpr.cases {node : Node} (h : node.IsExpr) :
    (∃ lexeme text, node = leaf lexeme text ∧ lexeme.Fits text) ∨
      ∃ bracket children, node = group (.ofBracket bracket) children ∧ AreExprs children := by
  obtain ⟨tag, contents, children⟩ := node
  unfold IsExpr at h
  split at h
  · next hkind =>
      rw [Kind.eq_tag_of_ofTag? hkind, h.1]
      exact .inr ⟨.round, children, rfl, h.2⟩
  · next hkind =>
      rw [Kind.eq_tag_of_ofTag? hkind, h.1]
      exact .inr ⟨.brace, children, rfl, h.2⟩
  · next lexeme hkind =>
      rw [Kind.eq_tag_of_ofTag? hkind, h.1]
      exact .inl ⟨lexeme, contents.toList, by simp [leaf], h.2⟩
  · exact absurd h id
  · exact absurd h id

/-! ### What is read is proper and written as it was -/

/-- A word is read exactly when it fits a class, as a leaf of that class. -/
theorem readWord_eq_ok_iff {text : List Char} {node : Node} :
    readWord text = .ok node ↔ ∃ lexeme : Lexeme, lexeme.Fits text ∧ node = leaf lexeme text := by
  unfold readWord
  constructor
  · intro h
    split at h
    · next lexeme hlexeme =>
        cases h
        exact ⟨lexeme, Lexeme.classify?_eq_some_iff.1 hlexeme, rfl⟩
    · cases h
  · rintro ⟨lexeme, hfits, rfl⟩
    rw [Lexeme.classify?_eq_some_iff.2 hfits]

/-- The one mutual induction: an expression that is read is proper and written as the tokens it took,
and so are the further children of a group, up to the closing bracket. -/
theorem reading_sound :
    (∀ tokens, ∀ reading, readForm tokens = .ok reading →
      reading.node.IsExpr ∧ tokens = reading.node.write ++ reading.rest) ∧
    (∀ bracket elders tokens, ∀ reading, readGroup bracket elders tokens = .ok reading →
      ∃ children, AreExprs children ∧
        reading.node = group (.ofBracket bracket) (elders.reverse ++ children) ∧
        tokens = writeAll children ++ .closing bracket :: reading.rest) := by
  -- The nodes that a group has when its rest is read come first in reverse, so that the second
  -- statement speaks of the further children only.
  apply readForm.mutual_induct
  case case1 | case2 | case3 =>
    intros
    simp_all [readForm]
  case case4 =>
    intro text tokens reading h
    rw [readForm] at h
    obtain ⟨node, hnode, rfl⟩ := exists_of_map_eq_ok h
    obtain ⟨lexeme, hfits, rfl⟩ := readWord_eq_ok_iff.1 hnode
    exact ⟨isExpr_leaf.2 hfits, by simp⟩
  case case5 =>
    intro bracket tokens ih reading h
    rw [readForm] at h
    obtain ⟨inner, hinner, rfl⟩ := exists_of_map_eq_ok h
    obtain ⟨children, hchildren, hnode, htokens⟩ := ih inner hinner
    rw [hnode, List.reverse_nil, List.nil_append]
    exact ⟨isExpr_group.2 hchildren, by simp [htokens]⟩
  case case6 =>
    intro bracket elders reading h
    simp [readGroup] at h
  case case7 =>
    intro elders closer tokens reading h
    rw [readGroup, if_pos rfl] at h
    cases h
    exact ⟨[], trivial, by simp, rfl⟩
  case case8 =>
    intro bracket elders closer tokens hne reading h
    rw [readGroup, if_neg hne] at h
    cases h
  case case9 =>
    intro bracket elders token tokens hclosing cause hform ih reading h
    rw [readGroup_of_error hclosing hform] at h
    cases h
  case case10 =>
    intro bracket elders token tokens hclosing form hform ih ih' reading h
    rw [readGroup_of_ok hclosing hform] at h
    obtain ⟨inner, hinner, rfl⟩ := exists_of_map_eq_ok h
    obtain ⟨hexpr, htokens⟩ := ih form hform
    obtain ⟨children, hchildren, hnode, hrest⟩ := ih' inner hinner
    refine ⟨form.node :: children, ⟨hexpr, hchildren⟩, by simp [hnode], ?_⟩
    calc token :: tokens = form.node.write ++ form.rest := htokens
      _ = form.node.write ++ (writeAll children ++ .closing bracket :: inner.rest) :=
        congrArg _ hrest
      _ = writeAll (form.node :: children) ++ .closing bracket :: inner.rest := by
        rw [writeAll, List.append_assoc]

/-- An expression that is read is proper and is written as the tokens it took. -/
theorem readForm_sound {tokens : List Token} {reading : Reading tokens}
    (h : readForm tokens = .ok reading) :
    reading.node.IsExpr ∧ tokens = reading.node.write ++ reading.rest :=
  reading_sound.1 tokens reading h

/-- The forms that are read are proper and are written as the tokens they were read from. -/
theorem readForms_sound {elders nodes : List Node} {tokens : List Token}
    (h : readForms elders tokens = .ok nodes) :
    ∃ children, AreExprs children ∧ nodes = elders.reverse ++ children ∧
      tokens = writeAll children := by
  fun_induction readForms elders tokens with
  | case1 elders =>
      cases h
      exact ⟨[], trivial, by simp, rfl⟩
  | case2 elders token tokens cause hform => cases h
  | case3 elders token tokens form hform ih =>
      obtain ⟨hexpr, htokens⟩ := readForm_sound hform
      obtain ⟨children, hchildren, hnodes, hrest⟩ := ih h
      refine ⟨form.node :: children, ⟨hexpr, hchildren⟩, by simp [hnodes], ?_⟩
      calc token :: tokens = form.node.write ++ form.rest := htokens
        _ = form.node.write ++ writeAll children := congrArg _ hrest

/-! ### What is proper and written is read -/

/-- An expression is read off the front of some tokens. -/
def ReadsForm (tokens : List Token) (node : Node) (rest : List Token) : Prop :=
  ∃ shorter, readForm tokens = .ok ⟨node, rest, shorter⟩

/-- A group that has some nodes already is read off the front of some tokens. -/
def ReadsGroup (bracket : Bracket) (elders : List Node) (tokens : List Token) (node : Node)
    (rest : List Token) : Prop :=
  ∃ shorter, readGroup bracket elders tokens = .ok ⟨node, rest, shorter⟩

/-- A word that fits a class is read off the front as a leaf. -/
theorem readsForm_word {lexeme : Lexeme} {text : List Char} (h : lexeme.Fits text)
    (rest : List Token) : ReadsForm (.word text :: rest) (leaf lexeme text) rest := by
  have hword := readWord_eq_ok_iff.2 ⟨lexeme, h, rfl⟩
  refine ⟨Nat.lt_succ_self _, ?_⟩
  rw [readForm, hword]
  rfl

/-- A group is read off the front from its opening bracket on. -/
theorem readsForm_opening {bracket : Bracket} {tokens rest : List Token} {node : Node}
    (h : ReadsGroup bracket [] tokens node rest) :
    ReadsForm (.opening bracket :: tokens) node rest := by
  obtain ⟨shorter, hgroup⟩ := h
  refine ⟨Nat.lt_succ_of_lt shorter, ?_⟩
  rw [readForm, hgroup]
  rfl

/-- A group ends at its closing bracket, with the nodes it has. -/
theorem readsGroup_closing (bracket : Bracket) (elders : List Node) (rest : List Token) :
    ReadsGroup bracket elders (.closing bracket :: rest)
      (group (.ofBracket bracket) elders.reverse) rest := by
  refine ⟨Nat.lt_succ_self _, ?_⟩
  rw [readGroup, if_pos rfl]

/-- A group goes on with a node behind the ones it has. -/
theorem readsGroup_cons {bracket : Bracket} {elders : List Node} {token : Token}
    {tokens rest rest' : List Token} {node node' : Node}
    (hclosing : ∀ closer, token ≠ .closing closer) (hform : ReadsForm (token :: tokens) node rest)
    (hgroup : ReadsGroup bracket (node :: elders) rest node' rest') :
    ReadsGroup bracket elders (token :: tokens) node' rest' := by
  obtain ⟨shorter, hform⟩ := hform
  obtain ⟨shorter', hgroup⟩ := hgroup
  refine ⟨Nat.lt_trans shorter' shorter, ?_⟩
  rw [readGroup_of_ok hclosing hform, hgroup]
  rfl

/-- What is written of a proper expression does not start with a closing bracket. -/
theorem IsExpr.exists_write_eq_cons {node : Node} (h : node.IsExpr) :
    ∃ token tokens, node.write = token :: tokens ∧ ∀ closer, token ≠ .closing closer := by
  rcases h.cases with ⟨lexeme, text, rfl, -⟩ | ⟨bracket, children, rfl, -⟩
  · exact ⟨.word text, [], write_leaf lexeme text, by simp⟩
  · exact ⟨.opening bracket, _, write_group bracket children, by simp⟩

mutual

/-- A proper expression that is written out is read back, whatever comes after it. -/
theorem readsForm_write : ∀ {node : Node}, node.IsExpr → ∀ rest : List Token,
    ReadsForm (node.write ++ rest) node rest
  | ⟨tag, contents, children⟩, hexpr, rest => by
      rcases hexpr.cases with ⟨lexeme, text, heq, hfits⟩ | ⟨bracket, children', heq, hchildren⟩
      · rw [heq, write_leaf, List.singleton_append]
        exact readsForm_word hfits rest
      · obtain rfl : children = children' := congrArg Node.children heq
        rw [heq, write_group, List.cons_append, List.append_assoc, List.singleton_append]
        exact readsForm_opening (readsGroup_writeAll hchildren bracket [] rest)

/-- Proper expressions that are written out before a closing bracket are read as the children of a
group. -/
theorem readsGroup_writeAll : ∀ {children : List Node}, AreExprs children →
    ∀ (bracket : Bracket) (elders : List Node) (rest : List Token),
      ReadsGroup bracket elders (writeAll children ++ .closing bracket :: rest)
        (group (.ofBracket bracket) (elders.reverse ++ children)) rest
  | [], _, bracket, elders, rest => by
      rw [writeAll, List.nil_append, List.append_nil]
      exact readsGroup_closing bracket elders rest
  | node :: children, hexprs, bracket, elders, rest => by
      obtain ⟨token, tokens, hwrite, hclosing⟩ := hexprs.1.exists_write_eq_cons
      have hform := readsForm_write hexprs.1 (writeAll children ++ .closing bracket :: rest)
      have hgroup := readsGroup_writeAll hexprs.2 bracket (node :: elders) rest
      rw [List.reverse_cons, List.append_assoc, List.singleton_append] at hgroup
      rw [writeAll, List.append_assoc]
      rw [hwrite, List.cons_append] at hform ⊢
      exact readsGroup_cons hclosing hform hgroup

end

/-- Proper expressions are read from the tokens that are written of them. -/
theorem readForms_writeAll {children : List Node} (h : AreExprs children) (elders : List Node) :
    readForms elders (writeAll children) = .ok (elders.reverse ++ children) := by
  induction children generalizing elders with
  | nil => simp [writeAll, readForms]
  | cons node children ih =>
      obtain ⟨token, tokens, hwrite, -⟩ := h.1.exists_write_eq_cons
      have hform := readsForm_write h.1 (writeAll children)
      rw [writeAll]
      rw [hwrite, List.cons_append] at hform ⊢
      obtain ⟨shorter, hform⟩ := hform
      rw [readForms, hform]
      simp only [ih h.2 (node :: elders), List.reverse_cons, List.append_assoc,
        List.singleton_append]

/-! ### The reader and the grammar -/

/-- Tokens are read exactly when they are those of proper expressions, at least one. -/
theorem ofTokens_eq_ok_iff {tokens : List Token} {tree : Node} :
    ofTokens tokens = .ok tree ↔
      ∃ children, children ≠ [] ∧ AreExprs children ∧ tree = group .root children ∧
        writeAll children = tokens := by
  unfold ofTokens
  constructor
  · intro h
    split at h
    · cases h
    · next hne =>
        obtain ⟨nodes, hforms, rfl⟩ := exists_of_map_eq_ok h
        obtain ⟨children, hchildren, hnodes, rfl⟩ := readForms_sound hforms
        rw [hnodes, List.reverse_nil, List.nil_append]
        refine ⟨children, ?_, hchildren, rfl, rfl⟩
        rintro rfl
        exact hne rfl
  · rintro ⟨children, hne, hchildren, rfl, rfl⟩
    have htokens : ¬ (writeAll children).isEmpty = true := by
      cases children with
      | nil => exact absurd rfl hne
      | cons node children =>
          obtain ⟨token, tokens, hwrite, -⟩ := hchildren.1.exists_write_eq_cons
          simp [writeAll, hwrite]
    rw [if_neg htokens, readForms_writeAll hchildren]
    rfl

/-- **The reader accepts exactly its grammar.** It reads a text as a tree exactly when the tree is
one for the text by the grammar: a root without contents and with at least one child, below which
every group has no contents, every leaf no children and the tag of the first class that its word
fits, and which is written as the tokens of the text, comments aside. A text has no more than one
such tree. -/
theorem read_iff_isParse (text : List Char) (tree : Node) :
    (read text = .ok tree ↔ IsParse text tree) ∧
      ∀ tree', IsParse text tree → IsParse text tree' → tree' = tree := by
  have hiff : ∀ t, read text = .ok t ↔ IsParse text t := by
    intro t
    unfold read IsParse
    rw [Token.tokenize_eq_ok_scan]
    simp only [ofTokens_eq_ok_iff, Except.ok.injEq, exists_eq_left']
    constructor
    · rintro ⟨children, hne, hchildren, rfl, hwrite⟩
      exact ⟨rfl, rfl, hne, hchildren, hwrite⟩
    · rintro ⟨htag, hcontents, hne, hchildren, hwrite⟩
      obtain ⟨tag, contents, children⟩ := t
      subst htag hcontents
      exact ⟨children, hne, hchildren, rfl, hwrite⟩
  refine ⟨hiff tree, ?_⟩
  intro tree' h h'
  have hread := (hiff tree).2 h
  rw [(hiff tree').2 h'] at hread
  exact Except.ok.inj hread

/-- A tree with a word of each class and groups in both kinds of brackets. -/
def sampleTree : Node :=
  group .root
    [leaf .long ['-', '5'],
      group .sexpr [leaf .symbol ['x'], group .qexpr [leaf .double ['2', '.'], group .sexpr []]]]

/-- A text with words of every class, both kinds of brackets and a comment has this tree and no
other. -/
theorem read_sampleTree :
    read "-5 (x, \x7b2. ()\x7d) ; y".toList = .ok sampleTree ∧
      IsParse "-5 (x, \x7b2. ()\x7d) ; y".toList sampleTree ∧
      ∀ tree', IsParse "-5 (x, \x7b2. ()\x7d) ; y".toList tree' → tree' = sampleTree := by
  have hread : read "-5 (x, \x7b2. ()\x7d) ; y".toList = .ok sampleTree := by cbv
  have hparse := (read_iff_isParse _ _).1.1 hread
  exact ⟨hread, hparse, fun tree' => (read_iff_isParse _ _).2 tree' hparse⟩

end Node

end QuoteLisp
