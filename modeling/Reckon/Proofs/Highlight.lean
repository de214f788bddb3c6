import Mathlib.Data.List.Chain
import Reckon.Highlight
import Reckon.Proofs.Syntax.Coverage
import Reckon.Proofs.Syntax.Lossless

/-!
The segments of a line are the line. Where the line is an expression, they are
its tokens and the white space around them: of all trees of the match, parents
before children, those that are coloured are the tokens from left to right.
-/

namespace Reckon

open Grammar ParseTree

namespace ParseTree

/-- A token as a tree. -/
def ofToken (token : Token) : ParseTree := .leaf token.1 token.2.1 token.2.2

end ParseTree

namespace Highlight

theorem isColored_ofToken {token : Token} (hend : token.1 ≠ .endOfInput)
    (hrole : token.1.role ≠ .repetition) : isColored (ofToken token) = true := by
  simp [isColored, ofToken, ParseTree.children, ParseTree.rule, hend, hrole]

/-- Every token that a scan takes is coloured. -/
theorem isColored_of_step {s s' : Scanner} {tokens : List Token} (h : Step s tokens s') :
    ∀ token ∈ tokens, isColored (ofToken token) = true := by
  cases h with
  | sign | paren | number | name | operator =>
    exact List.forall_mem_singleton.mpr (isColored_ofToken nofun nofun)
  | indexed =>
    exact List.forall_mem_cons.mpr ⟨isColored_ofToken nofun nofun,
      List.forall_mem_singleton.mpr (isColored_ofToken nofun nofun)⟩
  | closing bracket =>
    refine List.forall_mem_singleton.mpr (isColored_ofToken ?_ ?_)
    · cases bracket <;> nofun
    · cases bracket <;> nofun

theorem isColored_of_reaches {s s' : Scanner} {tokens : List Token} (h : Reaches s tokens s') :
    ∀ token ∈ tokens, isColored (ofToken token) = true := by
  induction h with
  | refl => exact nofun
  | step hstep _ ih => exact List.forall_mem_append.mpr ⟨isColored_of_step hstep, ih⟩

mutual

/-- The coloured trees within a tree are its tokens, from left to right. -/
theorem filter_preorder {tree : ParseTree} (hapart : tree.TokensApart)
    (hcolored : ∀ token ∈ tree.leaves, isColored (ofToken token) = true) :
    tree.preorder.filter isColored = tree.leaves.map ofToken := by
  cases tree with
  | leaf rule span text =>
    have hleaf : isColored (.leaf rule span text) = true := hcolored _ List.mem_cons_self
    rw [preorder, List.filter_cons_of_pos hleaf]
    rfl
  | branch rule span children =>
    have hbranch : ¬isColored (.branch rule span children) = true := by
      cases children with
      | nil =>
        have hrole := hapart.1 rfl
        simp [isColored, ParseTree.rule, hrole]
      | cons child rest => simp [isColored, ParseTree.children]
    rw [preorder, List.filter_cons_of_neg hbranch]
    exact filter_preorderOf hapart.2 hcolored

theorem filter_preorderOf {trees : List ParseTree} (hapart : TokensApartAll trees)
    (hcolored : ∀ token ∈ leavesOf trees, isColored (ofToken token) = true) :
    (preorderOf trees).filter isColored = (leavesOf trees).map ofToken := by
  cases trees with
  | nil => rfl
  | cons tree rest =>
    obtain ⟨htree, hrest⟩ := List.forall_mem_append.mp hcolored
    rw [preorderOf, leavesOf, List.filter_append, List.map_append,
      filter_preorder hapart.1 htree, filter_preorderOf hapart.2 hrest]

end

/-- Only coloured trees make segments. -/
theorem segmentsFrom?_filter (line : List Char) (stop : Nat) (trees : List ParseTree) :
    segmentsFrom? line stop (trees.filter isColored) = segmentsFrom? line stop trees := by
  induction trees generalizing stop with
  | nil => rfl
  | cons tree trees ih =>
    by_cases hcolored : isColored tree = true
    · rw [List.filter_cons_of_pos hcolored, segmentsFrom?, segmentsFrom?, if_pos hcolored,
        if_pos hcolored, ih]
    · rw [List.filter_cons_of_neg hcolored, segmentsFrom?, if_neg hcolored, ih]

/-- Whether a segment is nothing but white space. -/
def Segment.isBlank (s : Segment) : Bool := s.text.all Text.isBlank

/-- Segments that make up a text, with these words in it and white space around them, each
stretch of it in one piece. -/
structure Tokenizes (text : List Char) (words : List String) (segments : List Segment) : Prop where
  text_eq : segments.flatMap Segment.text = text
  words_eq : (segments.filter (!·.isBlank)).map (fun s => String.ofList s.text) = words
  isChain : segments.IsChain fun a b => ¬(a.isBlank = true ∧ b.isBlank = true)

section tokenizes

variable {line before gap lexeme rest : List Char} {words : List String}
  {segments : List Segment}

/-- The segments of a stretch of white space. -/
def blanks (gap : List Char) : List Segment := if gap = [] then [] else [⟨.plain, gap⟩]

theorem gap?_eq (hline : line = before ++ (gap ++ rest)) :
    gap? line (Text.byteLength before) (Text.byteLength before + Text.byteLength gap) =
      some (blanks gap) := by
  cases gap with
  | nil => exact if_neg (Nat.lt_irrefl _)
  | cons a more =>
    have hpos : 0 < Text.byteLength (a :: more) := Nat.add_pos_left a.utf8Size_pos _
    rw [gap?, if_pos (by omega), hline, Span.text?_eq_some]
    rfl

theorem isBlank_of_isLayout {a : Char} (h : isLayout a = true) : Text.isBlank a = true := by
  simp only [isLayout, Bool.or_eq_true, decide_eq_true_eq] at h
  rcases h with ((rfl | rfl) | rfl) | rfl <;> rfl

theorem tokenizes_blanks (hgap : ∀ a ∈ gap, isLayout a = true) : Tokenizes gap [] (blanks gap) := by
  have hblank : gap.all Text.isBlank = true :=
    List.all_eq_true.mpr fun a ha => isBlank_of_isLayout (hgap a ha)
  by_cases hnil : gap = []
  · rw [blanks, if_pos hnil, hnil]
    exact ⟨rfl, rfl, .nil⟩
  · rw [blanks, if_neg hnil]
    refine ⟨by simp, ?_, .singleton _⟩
    rw [List.filter_cons_of_neg (by simp [Segment.isBlank, hblank])]
    rfl

/-- Layout and a token go before other segments. -/
theorem Tokenizes.cons (h : Tokenizes rest words segments) (category : Category)
    (hgap : ∀ a ∈ gap, isLayout a = true) (hsolid : Solid lexeme) :
    Tokenizes (gap ++ (lexeme ++ rest)) (String.ofList lexeme :: words)
      (blanks gap ++ ⟨category, lexeme⟩ :: segments) := by
  obtain ⟨hgaptext, hgapwords, hgapchain⟩ := tokenizes_blanks hgap
  have htoken : Segment.isBlank ⟨category, lexeme⟩ = false := by
    obtain ⟨hne, hink⟩ := hsolid
    obtain ⟨a, more, rfl⟩ := List.exists_cons_of_ne_nil hne
    have ha := Lexeme.isBlank_eq_false_of_isInk (hink a List.mem_cons_self)
    simp [Segment.isBlank, ha]
  constructor
  · rw [List.flatMap_append, List.flatMap_cons, hgaptext, h.text_eq]
  · rw [List.filter_append, List.map_append, hgapwords, List.nil_append,
      List.filter_cons_of_pos (by simp [htoken]), List.map_cons, h.words_eq]
  · refine List.isChain_append.mpr ⟨hgapchain, ?_, ?_⟩
    · refine List.isChain_cons.mpr ⟨fun b _ hboth => ?_, h.isChain⟩
      exact absurd hboth.1 (by simp [htoken])
    · intro a _ b hb hboth
      obtain rfl := Option.some.inj hb
      exact absurd hboth.2 (by simp [htoken])

/-- A row of tokens with layout before each and at the end. -/
theorem exists_segmentsFrom?_of_laid {c stop : Cursor} {tokens : List Token}
    (h : Laid c tokens stop) (hlayout : ∀ a ∈ stop.rest, isLayout a = true)
    (hcolored : ∀ token ∈ tokens, isColored (ofToken token) = true)
    (hline : line = before ++ c.rest) (hoffset : c.offset = Text.byteLength before) :
    ∃ segments, segmentsFrom? line c.offset (tokens.map ofToken) = some segments ∧
      Tokenizes c.rest (lexemesOf tokens) segments := by
  induction h generalizing before with
  | nil c =>
    have hgap : line = before ++ (c.rest ++ []) := by rw [hline, List.append_nil]
    have hlength : Text.byteLength line = Text.byteLength before + Text.byteLength c.rest := by
      rw [hline, Text.byteLength_append]
    refine ⟨blanks c.rest, ?_, tokenizes_blanks hlayout⟩
    rw [List.map_nil, segmentsFrom?, hlength, hoffset, gap?_eq hgap]
  | @cons c d stop r lexeme rest tokens hd htext hsolid hmore ih =>
    obtain ⟨hfirst, hothers⟩ := List.forall_mem_cons.mp hcolored
    obtain ⟨gap, hgap, hrest, hstart⟩ := c.passes_skipLayout
    rw [← hd] at hrest hstart
    rw [htext] at hrest
    have hbehind : line = (before ++ gap ++ lexeme) ++ rest := by simp [hline, hrest]
    have hstop : (d.after lexeme rest).offset = Text.byteLength (before ++ gap ++ lexeme) := by
      simp [Cursor.after, hstart, hoffset, Nat.add_assoc]
    obtain ⟨segments, hsegments, htokenizes⟩ := ih hlayout hothers hbehind hstop
    have hplain : gap? line c.offset d.offset = some (blanks gap) := by
      rw [hstart, hoffset]
      exact gap?_eq (by rw [hline, hrest])
    have htoken : Span.text? ⟨d.offset, (d.after lexeme rest).offset⟩ line = some lexeme := by
      rw [hstop, hstart, hoffset, ← Text.byteLength_append, Text.byteLength_append _ lexeme,
        hbehind, List.append_assoc _ lexeme, Span.text?_eq_some]
    refine ⟨_, ?_, hrest ▸ htokenizes.cons (.ofToken r (String.ofList lexeme)) hgap hsolid⟩
    have hcut : token? line (ofToken (d.token r lexeme rest)) =
        some ⟨.ofToken r (String.ofList lexeme), lexeme⟩ :=
      congrArg (Option.map fun text => Segment.mk (.ofToken r (String.ofList text)) text) htoken
    rw [List.map_cons, segmentsFrom?, if_pos hfirst]
    change (gap? line c.offset d.offset >>= fun gap => _) = _
    rw [hplain, hcut]
    change (segmentsFrom? line (d.after lexeme rest).offset _ >>= fun more => _) = _
    rw [hsegments]
    rfl

end tokenizes

/-- The start and the end of a text are not coloured. -/
theorem filter_preorderOf_whole (c stop : Cursor) (tree : ParseTree) :
    (preorderOf [c.whole stop tree]).filter isColored = tree.preorder.filter isColored := by
  have hmain : ¬isColored (c.whole stop tree) = true := by
    simp [isColored, Cursor.whole, Cursor.branch, ParseTree.children]
  have hend : ¬isColored (stop.leaf .endOfInput [] []) = true := by
    simp [isColored, Cursor.leaf, ParseTree.rule]
  have hpreorder : preorderOf [c.whole stop tree] =
      c.whole stop tree :: (tree.preorder ++ [stop.leaf .endOfInput [] []]) := by
    simp [preorderOf, Cursor.whole, Cursor.branch, Cursor.leaf, preorder]
  rw [hpreorder, List.filter_cons_of_neg hmain, List.filter_append, List.filter_cons_of_neg hend,
    List.filter_nil, List.append_nil]

/-- A line that the grammar matches is split into its tokens and the white space around them. -/
theorem segments?_of_run {source : String} {trees : List ParseTree}
    (h : Grammar.run .main source.toList = .ok trees) :
    ∃ tree t segments, SyntaxTree.expression? trees = some tree ∧
      SyntaxTree.ofParseTree source tree = .ok t ∧ t.IsOf tree source ∧
      segments? source.toList = some segments ∧ Tokenizes source.toList t.texts segments := by
  obtain ⟨tree, stop, t, rfl, hexpression, ht, hof⟩ := SyntaxTree.exists_whole_of_run h
  obtain ⟨d, hreaches, hlayout⟩ := hof.readsThrough
  obtain ⟨_, hderives, -⟩ := hof.derives
  have hcolored := isColored_of_reaches hreaches
  have hlaid : Laid (.start source.toList) tree.leaves d := hreaches.laid
  have hline : source.toList = [] ++ (Cursor.start source.toList).rest := rfl
  obtain ⟨segments, hsegments, htokenizes⟩ :=
    exists_segmentsFrom?_of_laid hlaid hlayout hcolored hline rfl
  refine ⟨tree, t, segments, hexpression, ht, hof, ?_, ?_⟩
  · unfold segments?
    rw [h]
    dsimp only
    rw [← segmentsFrom?_filter, filter_preorderOf_whole, filter_preorder hderives.tokensApart.1
      hcolored]
    exact hsegments
  · rw [hof.texts_eq]
    exact htokenizes

/-- The segments of a line are the line. Where the grammar matches the line, those that are not
just white space are the tokens of its tree, from left to right, and no two that are just white
space touch. -/
theorem segments_tokenize (line : String) :
    (segments? line.toList = some (segments line.toList) ∧
      (segments line.toList).flatMap Segment.text = line.toList) ∧
    ∀ trees, Grammar.run .main line.toList = .ok trees →
      ∃ t, (∀ limit, line.toList.length ≤ limit → SyntaxTree.parse line limit = .ok t) ∧
        t.tokens.Pairwise (fun a b => a.1.stop ≤ b.1.start) ∧
        Tokenizes line.toList t.texts (segments line.toList) := by
  have hsegments : ∀ {found}, segments? line.toList = some found →
      segments line.toList = found := by
    intro found hfound
    rw [segments, hfound, Option.getD_some]
  cases h : Grammar.run .main line.toList with
  | error mismatch =>
    have hplain : segments? line.toList = some [⟨.plain, line.toList⟩] := by
      unfold segments?
      rw [h]
    rw [hsegments hplain]
    exact ⟨⟨hplain, List.append_nil _⟩, nofun⟩
  | ok trees =>
    obtain ⟨tree, t, found, hexpression, ht, hof, hfound, htokenizes⟩ := segments?_of_run h
    rw [hsegments hfound]
    refine ⟨⟨hfound, htokenizes.text_eq⟩, fun trees' htrees => ?_⟩
    obtain rfl := Except.ok.inj htrees
    refine ⟨t, fun limit hlimit => ?_, ?_, htokenizes⟩
    · obtain ⟨nesting, hnesting⟩ := Nesting.exists_deepest_eq_ok hlimit
      simp only [SyntaxTree.parse, hnesting, h, hexpression, ht]
    · obtain ⟨d, hreaches, -⟩ := hof.readsThrough
      rw [hof.tokens_eq, List.pairwise_map]
      exact hreaches.laid.pairwise

/-- An index with white space on all sides, among repetitions that are empty. -/
theorem segments_tokenize_index :
    ∃ trees t, Grammar.run .main "\ta [ -1 ]  || b ".toList = .ok trees ∧
      SyntaxTree.parse "\ta [ -1 ]  || b " 17 = .ok t ∧
      Tokenizes "\ta [ -1 ]  || b ".toList t.texts (segments "\ta [ -1 ]  || b ".toList) := by
  have hcheck : (Grammar.run .main "\ta [ -1 ]  || b ".toList).toOption.isSome = true := by
    decide +kernel
  cases h : Grammar.run .main "\ta [ -1 ]  || b ".toList with
  | error mismatch =>
    rw [h] at hcheck
    cases hcheck
  | ok trees =>
    obtain ⟨t, hparse, -, htokenizes⟩ := (segments_tokenize _).2 trees h
    exact ⟨trees, t, rfl, hparse 17 (by decide), htokenizes⟩

end Highlight

end Reckon
