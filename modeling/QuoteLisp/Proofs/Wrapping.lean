import QuoteLisp.Proofs.Programs
import QuoteLisp.Proofs.ReadBack

/-!
# Programs inside programs

A text that can be read may stand inside another: between round brackets, where it is the only item of
a program; between braces, where it is the data that `eval` takes; and among the arguments of `list`,
which quotes it, so that `eval` takes it again. In each case the text around it spells a program around
the program of the text, and that program finishes exactly as the inner one does.

The newline before the closing bracket ends a comment that the text may end with, and it ends the last
word, so the tokens of the text are the same wherever it stands (`scan_append_newline`).
-/

set_option autoImplicit false

namespace QuoteLisp

/-! ### Tokens -/

namespace Token

/-- A text that stands in brackets, with a newline before the closing one. -/
theorem significant_scan_group (bracket : Bracket) (line rest : List Char) :
    significant (scan (bracket.opener :: (line ++ '\n' :: bracket.closer :: rest))) =
      .opening bracket ::
        (significant (scan line) ++ .closing bracket :: significant (scan rest)) := by
  rw [scan_bracket (ofBracket?_opener bracket), scan_append_newline,
    scan_bracket (ofBracket?_closer bracket), significant_cons, significant_append,
    significant_cons (.closing bracket)]
  rfl

/-- A name with a space after it. -/
theorem significant_scan_name {name : List Char} (hname : Lexeme.symbol.Fits name)
    (rest : List Char) :
    significant (scan (name ++ ' ' :: rest)) = .word name :: significant (scan rest) := by
  have hspace : EndsWord (' ' :: rest) := endsWord_cons (by decide) rest
  rw [scan_word hname.ne_nil hname.isWordChar hspace, scan_separator Text.isSeparator_space,
    significant_cons]
  rfl

end Token

/-! ### Programs -/

namespace Value

open Node (AreExprs writeAll)

/-- A text has the tokens of proper expressions that mean these values. -/
def Spells (text : List Char) (vs : List Value) : Prop :=
  ∃ nodes, AreExprs nodes ∧ ofNodes nodes = .ok vs ∧
    writeAll nodes = Token.significant (Token.scan text)

variable {text : List Char} {vs : List Value}

/-- A text that is read spells values, at least one. -/
theorem Spells.of_read {tree : Node} (h : Node.read text = .ok tree) :
    ∃ vs, vs ≠ [] ∧ Spells text vs := by
  obtain ⟨children, hne, hchildren, -, hwrite⟩ := Node.read_eq_ok_iff.1 h
  obtain ⟨vs, hvs, hlength⟩ := hchildren.exists_ofNodes
  have hpos : 0 < vs.length := by
    rw [hlength]
    exact List.length_pos_iff.2 hne
  exact ⟨vs, List.length_pos_iff.1 hpos, children, hchildren, hvs, hwrite⟩

/-- A text that spells values is the program that lists them. -/
theorem Spells.parse (h : Spells text vs) (hvs : vs ≠ []) : parse text = .ok (.sexpr vs) := by
  obtain ⟨nodes, hnodes, hmeans, hwrite⟩ := h
  have hne : nodes ≠ [] := by
    rintro rfl
    exact hvs (Except.ok.inj hmeans).symm
  have hread := Node.read_eq_ok_iff.2 ⟨nodes, hne, hnodes, rfl, hwrite⟩
  rw [Value.parse, hread]
  exact adapt_root hmeans

/-- A text in brackets spells the list of what it spells. -/
theorem Spells.group (h : Spells text vs) (bracket : Bracket) :
    Spells (bracket.opener :: (text ++ '\n' :: [bracket.closer])) [inBrackets bracket vs] := by
  obtain ⟨nodes, hnodes, hmeans, hwrite⟩ := h
  refine ⟨[Node.group (.ofBracket bracket) nodes], ⟨Node.isExpr_group.2 hnodes, trivial⟩, ?_, ?_⟩
  · simp [ofNodes, ofNode_group hmeans]
  · rw [Token.significant_scan_group, Token.scan_nil]
    simp [writeAll, hwrite, Token.significant]

/-- A text after a name spells the symbol and then what it spells by itself. -/
theorem Spells.name (h : Spells text vs) {name : String} (hname : Lexeme.symbol.Fits name.toList) :
    Spells (name.toList ++ ' ' :: text) (.symbol name :: vs) := by
  obtain ⟨nodes, hnodes, hmeans, hwrite⟩ := h
  refine ⟨Node.leaf .symbol name.toList :: nodes, ⟨Node.isExpr_leaf.2 hname, hnodes⟩, ?_, ?_⟩
  · simp [ofNodes, ofNode_leaf, hmeans, ofLeaf]
  · rw [Token.significant_scan_name hname, ← hwrite]
    simp [writeAll]

/-- The name of `eval` is a symbol. -/
theorem fits_eval : Lexeme.symbol.Fits "eval".toList := Lexeme.classify?_eq_some_iff.1 (by decide)

/-- The name of `list` is a symbol. -/
theorem fits_list : Lexeme.symbol.Fits "list".toList := Lexeme.classify?_eq_some_iff.1 (by decide)

end Value

/-! ### Evaluation -/

namespace Reducer

variable {reduce : Reducer} {heap : Heap} {scope : ScopeId} {first : Value}

/-- A lone item is reduced in place of its list. -/
theorem reduceItems_lone (v : Value) :
    reduce.reduceItems heap scope v [] = reduce heap scope v := by
  unfold reduceItems
  split <;> simp_all

/-- A quoting function gives its arguments as they are. -/
theorem reduceItems_quoting {b : Builtin} {rest : List Value}
    (hfirst : reduce heap scope first = some (.builtin b, heap)) (hb : b.isQuoting = true)
    (hrest : rest ≠ []) :
    reduce.reduceItems heap scope first rest = some (.qexpr rest, heap) := by
  have hquoting : (Value.builtin b).isQuoting = true := hb
  rw [reduceItems_of_first hfirst rfl, if_neg (by simpa using hrest), if_pos hquoting]
  rcases Builtin.eq_of_isQuoting hb with rfl | rfl <;> rfl

/-- To evaluate an argument that is a list of data is to reduce the list as a program. -/
theorem reduceItems_eval {arg : Value} {vs : List Value}
    (hfirst : reduce heap scope first = some (.builtin .eval, heap))
    (harg : reduce heap scope arg = some (.qexpr vs, heap)) :
    reduce.reduceItems heap scope first [arg] = reduce heap scope (.sexpr vs) := by
  have hnil : reduce.reduceEach heap scope [] = some (.ok [], heap) := rfl
  have heach : reduce.reduceEach heap scope [arg] = some (.ok [.qexpr vs], heap) :=
    reduceEach_cons harg rfl hnil
  rw [reduceItems_of_first hfirst rfl, if_neg (by simp), if_neg (by decide), heach]
  rfl

end Reducer

section Finishing

variable {heap heap' : Heap} {scope : ScopeId} {v w r : Value} {vs : List Value}

/-- A value finishes as another does, if one more nested reduction gives the answers of the other. -/
theorem finishes_iff_of_eval_succ {k : Nat}
    (h : ∀ bound, k ≤ bound → eval (bound + 1) heap scope v = eval bound heap scope w) :
    Finishes heap scope v r heap' ↔ Finishes heap scope w r heap' := by
  -- The hypothesis says nothing below `k`, so that the bound is raised first.
  constructor
  · rintro ⟨bound, hv⟩
    refine ⟨max k bound, ?_⟩
    rw [← h _ (Nat.le_max_left k bound)]
    exact eval_mono (by omega) _ _ _ _ hv
  · rintro ⟨bound, hw⟩
    refine ⟨max k bound + 1, ?_⟩
    rw [h _ (Nat.le_max_left k bound)]
    exact eval_mono (Nat.le_max_right k bound) _ _ _ _ hw

/-- A list of one item finishes as the item does. -/
theorem finishes_lone :
    Finishes heap scope (.sexpr [v]) r heap' ↔ Finishes heap scope v r heap' :=
  finishes_iff_of_eval_succ fun _ (_ : 0 ≤ _) => Reducer.reduceItems_lone v

/-- An evaluation of what reduces to a quoted list finishes as the list does. -/
theorem finishes_eval (heval : heap.lookup scope "eval" = .ok (.builtin .eval))
    (hv : Finishes heap scope v (.qexpr vs) heap) :
    Finishes heap scope (.sexpr [.symbol "eval", v]) r heap' ↔
      Finishes heap scope (.sexpr vs) r heap' := by
  obtain ⟨k, hk⟩ := hv
  apply finishes_iff_of_eval_succ
  intro bound hle
  have hfirst : eval bound heap scope (.symbol "eval") = some (.builtin .eval, heap) := by
    rw [eval_symbol, heval]
  exact Reducer.reduceItems_eval hfirst (eval_mono hle _ _ _ _ hk)

/-- The function `list` quotes its arguments. -/
theorem finishes_list (hlist : heap.lookup scope "list" = .ok (.builtin .list)) (hvs : vs ≠ []) :
    Finishes heap scope (.sexpr (.symbol "list" :: vs)) (.qexpr vs) heap := by
  have hfirst : eval 0 heap scope (.symbol "list") = some (.builtin .list, heap) := by
    rw [eval_symbol, hlist]
  exact ⟨1, Reducer.reduceItems_quoting hfirst rfl hvs⟩

end Finishing

namespace Session

/-- Two lines mean the same in a scope of a heap: one finishes exactly when the other does, with the
same result and the same final heap. -/
def SameLine (heap : Heap) (scope : ScopeId) (line line' : List Char) : Prop :=
  ∀ result heap', FinishesLine heap scope line result heap' ↔
    FinishesLine heap scope line' result heap'

/-- Lines mean the same if the programs that they spell finish alike. -/
theorem sameLine_of_finishes {heap : Heap} {scope : ScopeId} {line line' : List Char}
    {program program' : Value} (hline : Value.parse line = .ok program)
    (hline' : Value.parse line' = .ok program')
    (h : ∀ {r : Value} {heap' : Heap}, Finishes heap scope program r heap' ↔
      Finishes heap scope program' r heap') : SameLine heap scope line line' := by
  intro result heap'
  simp only [finishesLine_iff hline, finishesLine_iff hline', h]

end Session

/-- **Wrapping and quoting a whole program preserve its meaning.** A text that can be read means the
same, in every scope of every heap, when it stands in round brackets; when it stands in braces after
`eval`, if that name means the builtin function there; and when it stands after `list` in the argument
of `eval`, if that name does too. The newline before the closing bracket ends a comment that the text
may end with. -/
theorem wrapped_program_means_the_same {line : List Char} {tree : Node}
    (hread : Node.read line = .ok tree) (heap : Heap) (scope : ScopeId) :
    Session.SameLine heap scope ("(".toList ++ line ++ "\n)".toList) line ∧
      (heap.lookup scope "eval" = .ok (.builtin .eval) →
        Session.SameLine heap scope ("eval \x7b".toList ++ line ++ "\n\x7d".toList) line ∧
        (heap.lookup scope "list" = .ok (.builtin .list) →
          Session.SameLine heap scope ("eval (list ".toList ++ line ++ "\n)".toList) line)) := by
  obtain ⟨vs, hvs, hspells⟩ := Value.Spells.of_read hread
  have hline : Value.parse line = .ok (.sexpr vs) := hspells.parse hvs
  have hround : Value.parse ("(".toList ++ line ++ "\n)".toList) = .ok (.sexpr [.sexpr vs]) :=
    (hspells.group .round).parse (by simp)
  have hbraces : Value.parse ("eval \x7b".toList ++ line ++ "\n\x7d".toList) =
      .ok (.sexpr [.symbol "eval", .qexpr vs]) :=
    ((hspells.group .brace).name Value.fits_eval).parse (by simp)
  have hlisted : Value.parse ("eval (list ".toList ++ line ++ "\n)".toList) =
      .ok (.sexpr [.symbol "eval", .sexpr (.symbol "list" :: vs)]) :=
    (((hspells.name Value.fits_list).group .round).name Value.fits_eval).parse (by simp)
  refine ⟨Session.sameLine_of_finishes hround hline finishes_lone, ?_⟩
  intro heval
  refine ⟨?_, ?_⟩
  · apply Session.sameLine_of_finishes hbraces hline
    exact finishes_eval heval ⟨0, eval_normal 0 trivial⟩
  · intro hlist
    apply Session.sameLine_of_finishes hlisted hline
    exact finishes_eval heval (finishes_list hlist hvs)

section Sample

/-- A line that binds a number and ends in a comment. -/
def commentedLine : List Char := "def \x7bx\x7d 2 ; )".toList

/-- The tree of that line. -/
def commentedTree : Node :=
  .group .root
    [.leaf .symbol "def".toList, .group .qexpr [.leaf .symbol "x".toList], .leaf .long "2".toList]

/-- The heap that binds the number. -/
def commentedHeap : Heap := Heap.initial.define 0 "x" (.integer 2)

/-- A definition that ends in a comment means the same when it is wrapped, with the newline that
ends the comment in front of the bracket. -/
theorem commented_definition_wrapped :
    Node.read commentedLine = .ok commentedTree ∧
      Heap.initial.lookup 0 "eval" = .ok (.builtin .eval) ∧
      Heap.initial.lookup 0 "list" = .ok (.builtin .list) ∧
      Session.FinishesLine Heap.initial 0 commentedLine (.ok .unit) commentedHeap ∧
      Session.FinishesLine Heap.initial 0 "(def \x7bx\x7d 2 ; )\n)".toList (.ok .unit)
        commentedHeap ∧
      Session.FinishesLine Heap.initial 0 "eval \x7bdef \x7bx\x7d 2 ; )\n\x7d".toList (.ok .unit)
        commentedHeap ∧
      Session.FinishesLine Heap.initial 0 "eval (list def \x7bx\x7d 2 ; )\n)".toList (.ok .unit)
        commentedHeap := by
  have hread : Node.read commentedLine = .ok commentedTree := by cbv
  have heval : Heap.initial.lookup 0 "eval" = .ok (.builtin .eval) := by cbv
  have hlist : Heap.initial.lookup 0 "list" = .ok (.builtin .list) := by cbv
  have hline : Session.FinishesLine Heap.initial 0 commentedLine (.ok .unit) commentedHeap :=
    ⟨1, by cbv⟩
  obtain ⟨hround, hquoted⟩ := wrapped_program_means_the_same hread Heap.initial 0
  obtain ⟨hbraces, hlisted⟩ := hquoted heval
  exact ⟨hread, heval, hlist, hline, (hround _ _).2 hline, (hbraces _ _).2 hline,
    (hlisted hlist _ _).2 hline⟩

end Sample

end QuoteLisp
