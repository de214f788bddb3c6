import Reckon.Proofs.Grammar.Steps

/-!
The grammar as a system of rules, without ordered choice. A derivation says
which stretch of a text a part of the grammar covers and which trees stand for
it. A bare name is one only where no opening bracket follows; this is the only
place where the rules look ahead. A scan reads a derived stretch through, and
the lexemes it takes are the tokens of the trees.
-/

namespace Reckon

namespace ParseTree

/-- The texts of the tokens of a tree from left to right. -/
def texts (tree : ParseTree) : List String := tree.leaves.map fun token => token.2.2

def textsOf (trees : List ParseTree) : List String := trees.flatMap texts

theorem leavesOf_eq_flatMap (trees : List ParseTree) : leavesOf trees = trees.flatMap leaves := by
  induction trees with
  | nil => rfl
  | cons tree trees ih => rw [leavesOf, ih, List.flatMap_cons]

@[simp] theorem leavesOf_nil : leavesOf [] = [] := rfl

@[simp] theorem leavesOf_cons (tree : ParseTree) (trees : List ParseTree) :
    leavesOf (tree :: trees) = tree.leaves ++ leavesOf trees := rfl

@[simp] theorem leavesOf_append (first second : List ParseTree) :
    leavesOf (first ++ second) = leavesOf first ++ leavesOf second := by
  simp only [leavesOf_eq_flatMap, List.flatMap_append]

@[simp] theorem texts_leaf (rule : Rule) (span : Span) (text : String) :
    (leaf rule span text).texts = [text] := rfl

@[simp] theorem texts_branch (rule : Rule) (span : Span) (children : List ParseTree) :
    (branch rule span children).texts = textsOf children := by
  simp only [texts, leaves, leavesOf_eq_flatMap, textsOf, List.map_flatMap]
  rfl

@[simp] theorem textsOf_nil : textsOf [] = [] := rfl

@[simp] theorem textsOf_cons (tree : ParseTree) (trees : List ParseTree) :
    textsOf (tree :: trees) = tree.texts ++ textsOf trees := rfl

@[simp] theorem textsOf_append (first second : List ParseTree) :
    textsOf (first ++ second) = textsOf first ++ textsOf second := List.flatMap_append

theorem lexemesOf_leavesOf (trees : List ParseTree) :
    Grammar.lexemesOf (leavesOf trees) = textsOf trees := by
  rw [leavesOf_eq_flatMap, Grammar.lexemesOf, List.map_flatMap]
  rfl

end ParseTree

namespace Grammar

namespace Cursor

/-- The token of a lexeme that stands here. -/
def leaf (c : Cursor) (r : Rule) (lexeme rest : List Char) : ParseTree :=
  .leaf r ⟨c.offset, (c.after lexeme rest).offset⟩ (String.ofList lexeme)

/-- The tree of a rule that matches from here to a later cursor. -/
def branch (c stop : Cursor) (r : Rule) (children : List ParseTree) : ParseTree :=
  .branch r ⟨c.offset, stop.offset⟩ children

/-- The tree of an operand without a symbol before it. -/
def atom (c stop : Cursor) (children : List ParseTree) : ParseTree :=
  c.branch stop .unary [c.branch stop .primary children]

@[simp] theorem leaves_leaf (c : Cursor) (r : Rule) (lexeme rest : List Char) :
    (c.leaf r lexeme rest).leaves = [c.token r lexeme rest] := rfl

@[simp] theorem leaves_branch (c stop : Cursor) (r : Rule) (children : List ParseTree) :
    (c.branch stop r children).leaves = ParseTree.leavesOf children := rfl

@[simp] theorem leaves_atom (c stop : Cursor) (children : List ParseTree) :
    (c.atom stop children).leaves = ParseTree.leavesOf children := by
  simp [atom]

@[simp] theorem texts_leaf (c : Cursor) (r : Rule) (lexeme rest : List Char) :
    (c.leaf r lexeme rest).texts = [String.ofList lexeme] := rfl

@[simp] theorem texts_branch (c stop : Cursor) (r : Rule) (children : List ParseTree) :
    (c.branch stop r children).texts = ParseTree.textsOf children :=
  ParseTree.texts_branch _ _ _

@[simp] theorem texts_atom (c stop : Cursor) (children : List ParseTree) :
    (c.atom stop children).texts = ParseTree.textsOf children := by
  simp [atom]

end Cursor

/-- The parts of the grammar: an operand with the symbols before it, a tier and all tighter
ones, the rounds of a repetition, and a whole expression. -/
inductive Part where
  | operand
  | tiers (ts : List Tier)
  | rounds (t : Tier) (tighter : List Tier)
  | expression

/-- What a scan waits for at the start of a part. -/
@[simp] def Part.expecting : Part → Expecting
  | operand => .operand
  | tiers _ => .operand
  | rounds _ _ => .operator
  | expression => .operand

/-- A part of the grammar covers the text from one cursor to another and has these trees. The
operand of a round, and whatever stands inside brackets, starts behind the layout there. -/
inductive Derives : Part → Cursor → List ParseTree → Cursor → Prop
  | number {c : Cursor} {lexeme rest : List Char}
      (hnumber : Lexeme.number? c.rest = some (lexeme, rest)) :
      Derives .operand c
        [c.atom (c.after lexeme rest)
          [c.branch (c.after lexeme rest) .number [c.leaf .numberLiteral lexeme rest]]]
        (c.after lexeme rest)
  | name {c : Cursor} {lexeme rest : List Char}
      (hname : Lexeme.identifier? c.rest = some (lexeme, rest))
      (hbare : (c.after lexeme rest).skipLayout.rest.head? ≠ some '[') :
      Derives .operand c [c.atom (c.after lexeme rest) [c.leaf .identifier lexeme rest]]
        (c.after lexeme rest)
  | indexed {c d e : Cursor} {lexeme rest inner outer : List Char} {index : ParseTree}
      (hname : Lexeme.identifier? c.rest = some (lexeme, rest))
      (hd : d = (c.after lexeme rest).skipLayout) (hopen : d.rest = '[' :: inner)
      (hindex : Derives .expression (d.after ['['] inner).skipLayout [index] e)
      (hclose : e.skipLayout.rest = ']' :: outer) :
      Derives .operand c
        [c.atom (e.skipLayout.after [']'] outer)
          [c.leaf .identifier lexeme rest, d.leaf .openBracket ['['] inner, index,
            e.skipLayout.leaf .closeBracket [']'] outer]]
        (e.skipLayout.after [']'] outer)
  | group {c e : Cursor} {inner outer : List Char} {tree : ParseTree}
      (hopen : c.rest = '(' :: inner)
      (hinner : Derives .expression (c.after ['('] inner).skipLayout [tree] e)
      (hclose : e.skipLayout.rest = ')' :: outer) :
      Derives .operand c
        [c.atom (e.skipLayout.after [')'] outer)
          [c.leaf .openParen ['('] inner, tree, e.skipLayout.leaf .closeParen [')'] outer]]
        (e.skipLayout.after [')'] outer)
  | signed {c stop : Cursor} {s : Symbol} {rest : List Char} {tree : ParseTree}
      (hsymbol : Symbol.unaryAt? c.rest = some (s, rest))
      (hoperand : Derives .operand (c.after s.text rest).skipLayout [tree] stop) :
      Derives .operand c
        [c.branch stop .unary
          [c.branch (c.after s.text rest) .unaryOperator [c.leaf (.symbol s) s.text rest], tree]]
        stop
  | bare {c stop : Cursor} {tree : ParseTree} (hoperand : Derives .operand c [tree] stop) :
      Derives (.tiers []) c [tree] stop
  | tier {c d stop : Cursor} {t : Tier} {tighter : List Tier} {tree : ParseTree}
      {trees : List ParseTree} (hfirst : Derives (.tiers tighter) c [tree] d)
      (hrounds : Derives (.rounds t tighter) d.skipLayout trees stop) :
      Derives (.tiers (t :: tighter)) c
        [c.branch stop (.tier t) [tree, d.skipLayout.branch stop (.repetition t) trees]] stop
  | done {t : Tier} {tighter : List Tier} (c : Cursor) : Derives (.rounds t tighter) c [] c
  | round {c d e stop : Cursor} {t : Tier} {tighter : List Tier} {s : Symbol} {rest : List Char}
      {tree : ParseTree} {trees : List ParseTree} (hd : d = c.skipLayout)
      (hsymbol : Symbol.binaryAt? d.rest = some (s, rest)) (hs : s ∈ t.symbols)
      (hoperand : Derives (.tiers tighter) (d.after s.text rest).skipLayout [tree] e)
      (hrounds : Derives (.rounds t tighter) e trees stop) :
      Derives (.rounds t tighter) c
        ([d.branch (d.after s.text rest) (.tierOperator t) [d.leaf (.symbol s) s.text rest],
          tree] ++ trees) stop
  | expression {c stop : Cursor} {tree : ParseTree}
      (htiers : Derives (.tiers Tier.all) c [tree] stop) :
      Derives .expression c [c.branch stop .expression [tree]] stop

namespace Derives

/-- A derivation covers a stretch of the text, which is not empty unless it may hold no round. -/
theorem passes {p : Part} {c stop : Cursor} {trees : List ParseTree}
    (h : Derives p c trees stop) :
    ∃ text, c.Passes text stop ∧ (p.expecting = .operand → text ≠ []) := by
  induction h with
  | @number c lexeme rest hnumber =>
    obtain ⟨hform, htext⟩ := Lexeme.isNumber_of_number? hnumber
    obtain ⟨a, more, rfl, -⟩ := hform.head
    exact ⟨_, Cursor.passes_after htext, by simp⟩
  | @name c lexeme rest hname _ =>
    obtain ⟨htext, a, more, rfl, -⟩ := Lexeme.identifier?_eq_some hname
    exact ⟨_, Cursor.passes_after htext, by simp⟩
  | @indexed c d e lexeme rest inner outer index hname hd hopen _ hclose ih =>
    obtain ⟨htext, a, more, rfl, -⟩ := Lexeme.identifier?_eq_some hname
    obtain ⟨layout, -, hlayout⟩ := (c.after (a :: more) rest).passes_skipLayout
    obtain ⟨layout', -, hlayout'⟩ := (d.after ['['] inner).passes_skipLayout
    obtain ⟨text, hpass, -⟩ := ih
    obtain ⟨layout'', -, hlayout''⟩ := e.passes_skipLayout
    subst hd
    have hname' := (Cursor.passes_after htext).trans hlayout
    have hstart := hname'.trans (Cursor.passes_after_cons hopen)
    have hend := (hpass.trans hlayout'').trans (Cursor.passes_after_cons hclose)
    exact ⟨_, (hstart.trans hlayout').trans hend, by simp⟩
  | @group c e inner outer tree hopen _ hclose ih =>
    obtain ⟨layout, -, hlayout⟩ := (c.after ['('] inner).passes_skipLayout
    obtain ⟨text, hpass, -⟩ := ih
    obtain ⟨layout', -, hlayout'⟩ := e.passes_skipLayout
    have hend := (hpass.trans hlayout').trans (Cursor.passes_after_cons hclose)
    exact ⟨_, ((Cursor.passes_after_cons hopen).trans hlayout).trans hend, by simp⟩
  | @signed c stop s rest tree hsymbol _ ih =>
    obtain ⟨layout, -, hlayout⟩ := (c.after s.text rest).passes_skipLayout
    obtain ⟨text, hpass, -⟩ := ih
    have hstart := Cursor.passes_after (Symbol.append_of_unaryAt? hsymbol)
    exact ⟨_, (hstart.trans hlayout).trans hpass, by simp [s.text_ne_nil]⟩
  | bare _ ih => exact ih
  | @tier c d stop t tighter tree trees _ _ ihFirst ihRounds =>
    obtain ⟨text, hpass, hne⟩ := ihFirst
    obtain ⟨layout, -, hlayout⟩ := d.passes_skipLayout
    obtain ⟨text', hpass', -⟩ := ihRounds
    exact ⟨_, (hpass.trans hlayout).trans hpass', by simp [hne rfl]⟩
  | done c => exact ⟨[], .refl c, by simp [Part.expecting]⟩
  | @round c d e stop t tighter s rest tree trees hd hsymbol _ _ _ ihOperand ihRounds =>
    obtain ⟨layout, -, hlayout⟩ := c.passes_skipLayout
    obtain ⟨layout', -, hlayout'⟩ := (d.after s.text rest).passes_skipLayout
    obtain ⟨text, hpass, -⟩ := ihOperand
    obtain ⟨text', hpass', -⟩ := ihRounds
    subst hd
    have hstart := hlayout.trans (Cursor.passes_after (Symbol.append_of_binaryAt? hsymbol))
    exact ⟨_, ((hstart.trans hlayout').trans hpass).trans hpass', by simp [Part.expecting]⟩
  | expression _ ih => exact ih

theorem length_lt {p : Part} {c stop : Cursor} {trees : List ParseTree}
    (h : Derives p c trees stop) (hp : p.expecting = .operand) :
    stop.rest.length < c.rest.length := by
  obtain ⟨text, hpass, hne⟩ := h.passes
  have hlength := hpass.length_eq
  have hpos : 0 < text.length := List.length_pos_iff.mpr (hne hp)
  omega

theorem skipLayout_le {p : Part} {c stop : Cursor} {trees : List ParseTree}
    (h : Derives p c trees stop) : c.skipLayout.offset ≤ stop.skipLayout.offset := by
  obtain ⟨text, hpass, -⟩ := h.passes
  exact hpass.skipLayout_le

theorem offset_le_skipLayout {p : Part} {c stop : Cursor} {trees : List ParseTree}
    (h : Derives p c trees stop) : c.offset ≤ stop.skipLayout.offset :=
  c.offset_le_skipLayout.trans h.skipLayout_le

/-- All parts but the rounds of a repetition have a single tree. -/
theorem exists_eq_singleton {p : Part} {c stop : Cursor} {trees : List ParseTree}
    (h : Derives p c trees stop) (hp : p.expecting = .operand) : ∃ tree, trees = [tree] := by
  cases h
  case done => cases hp
  case round => cases hp
  all_goals exact ⟨_, rfl⟩

/-- A scan reads every derived stretch through. It takes the tokens of the trees and stands behind
the last of them, waiting for an operator with the brackets open that were open before. -/
theorem reaches {p : Part} {c stop : Cursor} {trees : List ParseTree} (h : Derives p c trees stop)
    (opened : List Bracket) :
    ∃ d, d.PassesLayout stop ∧
      Reaches ⟨p.expecting, opened, c⟩ (ParseTree.leavesOf trees) ⟨.operator, opened, d⟩ := by
  induction h generalizing opened with
  | @number c lexeme rest hnumber =>
    obtain ⟨hskip, -⟩ := Scanner.number_head hnumber
    exact ⟨_, .refl _, by simpa using Reaches.single (.number hskip.symm hnumber)⟩
  | @name c lexeme rest hname hbare =>
    obtain ⟨hskip, -⟩ := Scanner.name_head hname
    exact ⟨_, .refl _, by simpa using Reaches.single (.name hskip.symm hname hbare)⟩
  | @indexed c d e lexeme rest inner outer index hname hd hopen _ hclose ih =>
    obtain ⟨hskip, -⟩ := Scanner.name_head hname
    obtain ⟨stop, hstop, hindex⟩ := ih (.square :: opened)
    have hstart := hindex.before_layout (d.after ['['] inner).passesLayout_skipLayout
    have hend : Step ⟨.operator, .square :: opened, stop⟩ _ _ :=
      .closing .square hstop.skipLayout_eq.symm hclose
    have hname' : Step ⟨.operand, opened, c⟩ _ _ := .indexed hskip.symm hname hd hopen
    have hall := Reaches.step hname' (hstart.trans (.single hend))
    exact ⟨_, .refl _, by simpa [Bracket.closingRule, Bracket.closing] using hall⟩
  | @group c e inner outer tree hopen _ hclose ih =>
    have hskip : c.skipLayout = c := Cursor.skipLayout_eq_self (by simp [hopen, isLayout])
    obtain ⟨stop, hstop, hinner⟩ := ih (.paren :: opened)
    have hstart := hinner.before_layout (c.after ['('] inner).passesLayout_skipLayout
    have hend : Step ⟨.operator, .paren :: opened, stop⟩ _ _ :=
      .closing .paren hstop.skipLayout_eq.symm hclose
    have hparen : Step ⟨.operand, opened, c⟩ _ _ := .paren hskip.symm hopen
    have hall := Reaches.step hparen (hstart.trans (.single hend))
    exact ⟨_, .refl _, by simpa [Bracket.closingRule, Bracket.closing] using hall⟩
  | @signed c stop s rest tree hsymbol _ ih =>
    have hskip := Scanner.skipLayout_of_unaryAt? hsymbol
    obtain ⟨e, he, hoperand⟩ := ih opened
    have hstart := hoperand.before_layout (c.after s.text rest).passesLayout_skipLayout
    have hsign : Step ⟨.operand, opened, c⟩ _ _ := .sign hskip.symm hsymbol
    exact ⟨e, he, by simpa using Reaches.step hsign hstart⟩
  | bare _ ih => exact ih opened
  | @tier c d stop t tighter tree trees _ _ ihFirst ihRounds =>
    obtain ⟨e, he, hfirst⟩ := ihFirst opened
    obtain ⟨e', he', hrounds⟩ := ihRounds opened
    have hlayout := he.trans d.passesLayout_skipLayout
    obtain ⟨e'', he'', hrounds'⟩ := hrounds.behind_layout hlayout he'
    exact ⟨e'', he'', by simpa using hfirst.trans hrounds'⟩
  | done c => exact ⟨c, .refl c, .refl _⟩
  | @round c d e stop t tighter s rest tree trees hd hsymbol _ _ _ ihOperand ihRounds =>
    obtain ⟨e', he', hoperand⟩ := ihOperand opened
    have hstart := hoperand.before_layout (d.after s.text rest).passesLayout_skipLayout
    obtain ⟨e'', he'', hrounds⟩ := ihRounds opened
    obtain ⟨last, hlast, hrounds'⟩ := hrounds.behind_layout he' he''
    have hoperator : Step ⟨.operator, opened, c⟩ _ _ := .operator hd hsymbol
    exact ⟨last, hlast, by simpa using Reaches.step hoperator (hstart.trans hrounds')⟩
  | @expression c stop tree _ ih =>
    obtain ⟨d, hd, htiers⟩ := ih opened
    exact ⟨d, hd, by simpa using htiers⟩

theorem offset_lt {p : Part} {c stop : Cursor} {trees : List ParseTree}
    (h : Derives p c trees stop) (hp : p.expecting = .operand) :
    c.offset < stop.skipLayout.offset := by
  obtain ⟨d, hd, hreaches⟩ := h.reaches []
  rw [hp] at hreaches
  rw [← hd.skipLayout_eq]
  exact (hreaches.offset_lt hreaches.ne_nil).trans_le d.offset_le_skipLayout

/-- The scan of a derived stretch goes on behind it. -/
theorem run {p : Part} {c stop : Cursor} {trees : List ParseTree} (h : Derives p c trees stop)
    (opened : List Bracket) :
    Scanner.run ⟨p.expecting, opened, c⟩ =
      (Scanner.run ⟨.operator, opened, stop⟩).after (ParseTree.textsOf trees) := by
  obtain ⟨d, hd, hreaches⟩ := h.reaches opened
  rw [hreaches.run, ParseTree.lexemesOf_leavesOf, ← Scanner.run_skipLayout, hd.skipLayout_eq,
    Scanner.run_skipLayout]

end Derives

end Grammar

end Reckon
