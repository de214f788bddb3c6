import Reckon.Proofs.Syntax.Tokens

/-!
How the spans of a tree lie in its source. The tokens are the source without
its layout: each has the text at its span, they stand one behind the other, and
no other character is left out. The spans of the children of an entry lie in
order within its own. Both hold of the tree that is matched, where a rule spans
all that it derives, and are carried over to the table.
-/

namespace Reckon

open Grammar

/-- Spans that stand one behind the other between two offsets. -/
def Span.Ordered (start stop : Nat) : List Span → Prop
  | [] => start ≤ stop
  | span :: rest => start ≤ span.start ∧ span.start ≤ span.stop ∧ Ordered span.stop stop rest

namespace Span.Ordered

variable {start start' middle stop : Nat} {spans more : List Span}

theorem le (h : Ordered start stop spans) : start ≤ stop := by
  induction spans generalizing start with
  | nil => exact h
  | cons span spans ih =>
    obtain ⟨hstart, hspan, hrest⟩ := h
    exact hstart.trans (hspan.trans (ih hrest))

theorem widen (h : Ordered start stop spans) (hle : start' ≤ start) :
    Ordered start' stop spans := by
  cases spans with
  | nil => exact hle.trans h
  | cons span spans => exact ⟨hle.trans h.1, h.2⟩

theorem append (h : Ordered start middle spans) (h' : Ordered middle stop more) :
    Ordered start stop (spans ++ more) := by
  induction spans generalizing start with
  | nil => exact h'.widen h
  | cons span spans ih =>
    obtain ⟨hstart, hspan, hrest⟩ := h
    exact ⟨hstart, hspan, ih hrest⟩

theorem within (h : Ordered start stop spans) :
    ∀ span ∈ spans, start ≤ span.start ∧ span.start ≤ span.stop ∧ span.stop ≤ stop := by
  induction spans generalizing start with
  | nil => exact nofun
  | cons span spans ih =>
    obtain ⟨hstart, hspan, hrest⟩ := h
    refine List.forall_mem_cons.mpr ⟨⟨hstart, hspan, hrest.le⟩, fun other hother => ?_⟩
    obtain ⟨hother', hrest'⟩ := ih hrest other hother
    exact ⟨hstart.trans (hspan.trans hother'), hrest'⟩

theorem pairwise (h : Ordered start stop spans) :
    spans.Pairwise fun a b => a.stop ≤ b.start := by
  induction spans generalizing start with
  | nil => exact .nil
  | cons span spans ih =>
    obtain ⟨-, -, hrest⟩ := h
    exact .cons (fun other hother => (hrest.within other hother).1) (ih hrest)

end Span.Ordered

/-- A span covers the character that stands behind a text. -/
def Span.Covers (span : Span) (before : List Char) (a : Char) : Prop :=
  span.start ≤ Text.byteLength before ∧ Text.byteLength before + a.utf8Size ≤ span.stop

/-- A character of a text that falls into two parts stands in one of them. -/
theorem exists_of_append_cons_eq {pre post first second : List Char} {a : Char}
    (h : pre ++ a :: post = first ++ second) :
    (∃ more, first = pre ++ a :: more) ∨
      ∃ pre', pre = first ++ pre' ∧ second = pre' ++ a :: post := by
  rcases List.append_eq_append_iff.mp h with ⟨more, hfirst, hsecond⟩ | ⟨pre', hpre, hsecond⟩
  · cases more with
    | nil =>
      rw [List.append_nil] at hfirst
      exact .inr ⟨[], by rw [hfirst, List.append_nil], hsecond.symm⟩
    | cons b more =>
      obtain ⟨rfl, -⟩ := List.cons.inj hsecond
      exact .inl ⟨more, hfirst⟩
  · exact .inr ⟨pre', hpre, hsecond⟩

namespace Grammar.Laid

variable {c stop : Cursor} {tokens : List Token} {before : List Char}

/-- Tokens have the texts at their spans, which are not empty. -/
theorem text?_eq (h : Laid c tokens stop) (hbefore : c.offset = Text.byteLength before) :
    ∀ token ∈ tokens,
      token.2.1.text? (before ++ c.rest) = some token.2.2.toList ∧ token.2.2 ≠ "" := by
  induction h generalizing before with
  | nil => exact nofun
  | @cons c d stop r lexeme rest tokens hd htext hsolid _ ih =>
    obtain ⟨gap, -, hrest, hoffset⟩ := c.passes_skipLayout
    rw [← hd] at hrest hoffset
    have hstart : d.offset = Text.byteLength (before ++ gap) := by
      rw [hoffset, hbefore, Text.byteLength_append]
    have hstop : (d.after lexeme rest).offset = Text.byteLength (before ++ gap ++ lexeme) := by
      rw [Text.byteLength_append, ← hstart]
      rfl
    have hwhole : before ++ c.rest = before ++ gap ++ (lexeme ++ rest) := by
      rw [hrest, htext, List.append_assoc]
    refine List.forall_mem_cons.mpr ⟨⟨?_, ?_⟩, ?_⟩
    · rw [Cursor.token, hstart, hstop, Text.byteLength_append _ lexeme, hwhole,
        Span.text?_eq_some, String.toList_ofList]
    · intro hempty
      exact hsolid.1 (String.ofList_injective hempty)
    · have hmore := ih hstop
      rw [Cursor.after_rest, List.append_assoc, ← hwhole] at hmore
      exact hmore

/-- Tokens stand one behind the other. -/
theorem pairwise (h : Laid c tokens stop) :
    tokens.Pairwise fun a b => a.2.1.stop ≤ b.2.1.start := by
  induction h with
  | nil => exact .nil
  | cons _ _ _ hmore ih => exact .cons (fun token htoken => (hmore.offset_le token htoken).1) ih

/-- Every character up to the end is layout or in a token. -/
theorem covered (h : Laid c tokens stop) (hbefore : c.offset = Text.byteLength before)
    {pre post : List Char} {a : Char} (ha : c.rest = pre ++ a :: post) :
    isLayout a = true ∨ (∃ token ∈ tokens, token.2.1.Covers (before ++ pre) a) ∨
      a ∈ stop.rest := by
  induction h generalizing before pre with
  | nil => exact .inr (.inr (by simp [ha]))
  | @cons c d stop r lexeme rest tokens hd htext hsolid _ ih =>
    obtain ⟨gap, hgap, hrest, hoffset⟩ := c.passes_skipLayout
    rw [← hd, htext] at hrest
    rw [← hd] at hoffset
    rw [ha] at hrest
    have hstop : (d.after lexeme rest).offset = Text.byteLength (before ++ gap ++ lexeme) := by
      rw [Text.byteLength_append, Text.byteLength_append, ← hbefore, ← hoffset]
      rfl
    rcases exists_of_append_cons_eq hrest with ⟨more, rfl⟩ | ⟨pre', rfl, hbehind⟩
    · exact .inl (hgap a (by simp))
    rcases exists_of_append_cons_eq hbehind.symm with ⟨more, rfl⟩ | ⟨pre'', rfl, hbehind'⟩
    · refine .inr (.inl ⟨_, List.mem_cons_self, ?_, ?_⟩)
      · simp only [Cursor.token, Text.byteLength_append]
        omega
      · simp only [Cursor.token, hstop, Text.byteLength_append, Text.byteLength]
        omega
    · rcases ih hstop hbehind' with hlayout | ⟨token, htoken, hcovers⟩ | hmem
      · exact .inl hlayout
      · rw [List.append_assoc, List.append_assoc] at hcovers
        exact .inr (.inl ⟨token, List.mem_cons_of_mem _ htoken, hcovers⟩)
      · exact .inr (.inr hmem)

end Grammar.Laid

namespace ParseTree

mutual

/-- The spans below a tree lie in order within the spans above them. -/
def Nested : ParseTree → Prop
  | leaf _ _ _ => True
  | branch _ span children =>
    Span.Ordered span.start span.stop (children.map ParseTree.span) ∧ NestedAll children

def NestedAll : List ParseTree → Prop
  | [] => True
  | tree :: rest => tree.Nested ∧ NestedAll rest

end

theorem nestedAll_append {first second : List ParseTree} :
    NestedAll (first ++ second) ↔ NestedAll first ∧ NestedAll second := by
  induction first with
  | nil => simp [NestedAll]
  | cons tree first ih => rw [List.cons_append, NestedAll, NestedAll, ih, and_assoc]

/-- Nested trees that stand one behind the other between two offsets. -/
def NestedWithin (start stop : Nat) (trees : List ParseTree) : Prop :=
  Span.Ordered start stop (trees.map span) ∧ NestedAll trees

namespace NestedWithin

variable {start start' middle stop : Nat} {first second : List ParseTree}

theorem widen (h : NestedWithin start stop first) (hle : start' ≤ start) :
    NestedWithin start' stop first := ⟨h.1.widen hle, h.2⟩

theorem append (h : NestedWithin start middle first) (h' : NestedWithin middle stop second) :
    NestedWithin start stop (first ++ second) := by
  refine ⟨?_, nestedAll_append.mpr ⟨h.2, h'.2⟩⟩
  rw [List.map_append]
  exact h.1.append h'.1

end NestedWithin

end ParseTree

namespace Grammar

open ParseTree

theorem Cursor.nestedWithin_leaf (c : Cursor) (r : Rule) (lexeme rest : List Char) :
    NestedWithin c.offset (c.after lexeme rest).offset [c.leaf r lexeme rest] :=
  ⟨⟨le_rfl, Nat.le_add_right _ _, le_rfl⟩, trivial, trivial⟩

theorem Cursor.nestedWithin_branch {c stop : Cursor} {children : List ParseTree} (r : Rule)
    (h : NestedWithin c.offset stop.offset children) :
    NestedWithin c.offset stop.offset [c.branch stop r children] :=
  ⟨⟨le_rfl, h.1.le, le_rfl⟩, h, trivial⟩

theorem Cursor.nestedWithin_atom {c stop : Cursor} {children : List ParseTree}
    (h : NestedWithin c.offset stop.offset children) :
    NestedWithin c.offset stop.offset [c.atom stop children] :=
  nestedWithin_branch .unary (nestedWithin_branch .primary h)

/-- The trees of a derived stretch are nested within it. Layout is left out on either side. -/
theorem Derives.nested {p : Part} {c stop : Cursor} {trees : List ParseTree}
    (h : Derives p c trees stop) : NestedWithin c.offset stop.offset trees := by
  induction h with
  | @number c lexeme rest hnumber =>
    exact Cursor.nestedWithin_atom
      (Cursor.nestedWithin_branch .number (c.nestedWithin_leaf .numberLiteral lexeme rest))
  | @name c lexeme rest hname hbare =>
    exact Cursor.nestedWithin_atom (c.nestedWithin_leaf .identifier lexeme rest)
  | @indexed c d e lexeme rest inner outer index hname hd hopen hindex hclose ih =>
    have hbase := c.nestedWithin_leaf .identifier lexeme rest
    have hopening := (d.nestedWithin_leaf .openBracket ['['] inner).widen
      (hd ▸ (c.after lexeme rest).offset_le_skipLayout)
    have hindex' := ih.widen (d.after ['['] inner).offset_le_skipLayout
    have hclosing := (e.skipLayout.nestedWithin_leaf .closeBracket [']'] outer).widen
      e.offset_le_skipLayout
    exact Cursor.nestedWithin_atom (hbase.append (hopening.append (hindex'.append hclosing)))
  | @group c e inner outer tree hopen hinner hclose ih =>
    have hopening := c.nestedWithin_leaf .openParen ['('] inner
    have hinner' := ih.widen (c.after ['('] inner).offset_le_skipLayout
    have hclosing := (e.skipLayout.nestedWithin_leaf .closeParen [')'] outer).widen
      e.offset_le_skipLayout
    exact Cursor.nestedWithin_atom (hopening.append (hinner'.append hclosing))
  | @signed c stop s rest tree hsymbol hoperand ih =>
    have hoperator := Cursor.nestedWithin_branch .unaryOperator
      (c.nestedWithin_leaf (.symbol s) s.text rest)
    have hoperand' := ih.widen (c.after s.text rest).offset_le_skipLayout
    exact Cursor.nestedWithin_branch .unary (hoperator.append hoperand')
  | bare _ ih => exact ih
  | @tier c d stop t tighter tree trees hfirst hrounds ihFirst ihRounds =>
    have hrepetition := (Cursor.nestedWithin_branch (.repetition t) ihRounds).widen
      d.offset_le_skipLayout
    exact Cursor.nestedWithin_branch (.tier t) (ihFirst.append hrepetition)
  | done c => exact ⟨le_rfl, trivial⟩
  | @round c d e stop t tighter s rest tree trees hd hsymbol hs hoperand hrounds ihOperand
      ihRounds =>
    have hoperator := (Cursor.nestedWithin_branch (.tierOperator t)
      (d.nestedWithin_leaf (.symbol s) s.text rest)).widen (hd ▸ c.offset_le_skipLayout)
    have hoperand' := ihOperand.widen (d.after s.text rest).offset_le_skipLayout
    exact (hoperator.append hoperand').append ihRounds
  | expression htiers ih => exact Cursor.nestedWithin_branch .expression ih

end Grammar

/-- The children of an entry are in the table, with their spans in order within its own. -/
def SyntaxTree.NestsAt (t : SyntaxTree) (e : Entry) : Prop :=
  e.span.start ≤ e.span.stop ∧
    (∀ child ∈ e.children, ∃ c, t.get? child = some c ∧
      e.span.start ≤ c.span.start ∧ c.span.start ≤ c.span.stop ∧ c.span.stop ≤ e.span.stop) ∧
    (e.children.map t.spanOf).Pairwise fun a b => a.stop ≤ b.start

theorem SyntaxTree.spanOf_eq (t : SyntaxTree) (id : Place) :
    t.spanOf id = ((t.get? id).map Entry.span).getD (.whole t.source) := by
  unfold spanOf
  cases t.get? id <;> rfl

namespace ParseTree

open EntryTable

variable {t : SyntaxTree}

/-- The last entry of a laid-out tree is its own. -/
theorem exists_get?_of_holds {tree : ParseTree} {base : Nat}
    (h : t.table.Holds base (tree.entries base)) :
    ∃ e, t.get? (base + tree.descendants) = some e ∧ e.span = tree.span := by
  cases tree with
  | leaf rule span text =>
    rw [entries, holds_singleton] at h
    exact ⟨_, h, rfl⟩
  | branch rule span children =>
    rw [entries, holds_append, length_entriesOf, holds_singleton] at h
    exact ⟨_, h.2, rfl⟩

/-- At the places of laid-out trees are entries with their spans. -/
theorem map_span_placesOf {trees : List ParseTree} {base : Nat}
    (h : t.table.Holds base (entriesOf base trees)) :
    (placesOf base trees).map (fun id => (t.get? id).map Entry.span) =
      trees.map fun tree => some tree.span := by
  induction trees generalizing base with
  | nil => rfl
  | cons tree rest ih =>
    rw [entriesOf, holds_append, length_entries, ← Nat.add_assoc] at h
    obtain ⟨e, he, hspan⟩ := exists_get?_of_holds h.1
    rw [placesOf, List.map_cons, List.map_cons, ih h.2, he, ← hspan]
    rfl

/-- An entry over laid-out trees nests where the trees do. -/
theorem nestsAt_of_ordered {trees : List ParseTree} {base : Nat} {e : Entry}
    (h : t.table.Holds base (entriesOf base trees)) (hchildren : e.children = placesOf base trees)
    (hordered : Span.Ordered e.span.start e.span.stop (trees.map span)) : t.NestsAt e := by
  have hmap := map_span_placesOf h
  rw [← hchildren] at hmap
  have hfound : ∀ child ∈ e.children, ∃ c, t.get? child = some c ∧ c.span ∈ trees.map span := by
    intro child hchild
    have hmem : (t.get? child).map Entry.span ∈ trees.map fun tree => some tree.span := by
      rw [← hmap]
      exact List.mem_map_of_mem hchild
    obtain ⟨tree, htree, hspan⟩ := List.mem_map.mp hmem
    obtain ⟨c, hc, hspan'⟩ := Option.map_eq_some_iff.mp hspan.symm
    exact ⟨c, hc, hspan' ▸ List.mem_map_of_mem htree⟩
  refine ⟨hordered.le, fun child hchild => ?_, ?_⟩
  · obtain ⟨c, hc, hspan⟩ := hfound child hchild
    exact ⟨c, hc, hordered.within _ hspan⟩
  · have hspans : e.children.map t.spanOf = trees.map span := calc
      e.children.map t.spanOf =
          (e.children.map fun id => (t.get? id).map Entry.span).map
            (·.getD (.whole t.source)) := by
        rw [List.map_map]
        exact List.map_congr_left fun id _ => t.spanOf_eq id
      _ = trees.map span := by
        rw [hmap, List.map_map]
        rfl
    rw [hspans]
    exact hordered.pairwise

mutual

/-- Every entry of a laid-out tree nests. -/
theorem nestsAt_of_holds (tree : ParseTree) {base : Nat} (hpaired : tree.Paired)
    (hspan : tree.span.start ≤ tree.span.stop) (hnested : tree.Nested)
    (h : t.table.Holds base (tree.entries base)) : ∀ e ∈ tree.entries base, t.NestsAt e := by
  cases tree with
  | leaf rule span text =>
    exact List.forall_mem_singleton.mpr ⟨hspan, nofun, .nil⟩
  | branch rule span children =>
    obtain ⟨hrule, hall⟩ := hpaired
    obtain ⟨hordered, hbelow⟩ := hnested
    rw [entries, holds_append] at h
    have hforward : ∀ tree ∈ children, tree.span.start ≤ tree.span.stop := fun tree htree =>
      (hordered.within _ (List.mem_map_of_mem htree)).2.1
    refine List.forall_mem_append.mpr
      ⟨nestsAt_of_holdsAll children hall hforward hbelow h.1, List.forall_mem_singleton.mpr ?_⟩
    refine nestsAt_of_ordered h.1 (children_shape ?_) hordered
    rwa [length_placesOf]

theorem nestsAt_of_holdsAll (trees : List ParseTree) {base : Nat} (hpaired : PairedAll trees)
    (hspan : ∀ tree ∈ trees, tree.span.start ≤ tree.span.stop) (hnested : NestedAll trees)
    (h : t.table.Holds base (entriesOf base trees)) : ∀ e ∈ entriesOf base trees, t.NestsAt e := by
  cases trees with
  | nil => exact nofun
  | cons tree rest =>
    obtain ⟨htree, hrest⟩ := hpaired
    obtain ⟨hspanTree, hspanRest⟩ := List.forall_mem_cons.mp hspan
    rw [entriesOf, holds_append, length_entries, ← Nat.add_assoc] at h
    exact List.forall_mem_append.mpr
      ⟨nestsAt_of_holds tree htree hspanTree hnested.1 h.1,
        nestsAt_of_holdsAll rest hrest hspanRest hnested.2 h.2⟩

end

end ParseTree

/-- The token that an entry is. -/
def Entry.token? (e : Entry) : Option Token := e.text?.map fun text => (e.rule, e.span, text)

theorem Entry.token?_eq {e : Entry} {text : String} (h : e.text? = some text) :
    e.token? = some (e.rule, e.span, text) := by
  rw [token?, h, Option.map_some]

namespace SyntaxTree

/-- The tokens of a tree are its source without the layout: each is the text at its span and not
empty, they lie one behind the other in the order of their places, and what they leave out is
layout. -/
structure TokensCover (t : SyntaxTree) : Prop where
  text_eq : ∀ id e text, t.get? id = some e → e.text? = some text →
    e.span.text? t.source.toList = some text.toList ∧ text ≠ ""
  ordered : ∀ id id' e e', id < id' → t.get? id = some e → t.get? id' = some e' →
    e.text?.isSome → e'.text?.isSome → e.span.stop ≤ e'.span.start
  covered : ∀ before a after, t.source.toList = before ++ a :: after →
    isLayout a = true ∨ ∃ id e, t.get? id = some e ∧ e.text?.isSome ∧ e.span.Covers before a

variable {t : SyntaxTree} {tree : ParseTree} {source : String} {limit : Nat}

namespace IsOf

theorem filterMap_token? (h : t.IsOf tree source) :
    t.table.entries.toList.filterMap Entry.token? = tree.leaves := by
  have hnone : ∀ e : Entry, e.text? = none → e.token? = none := by
    intro e he
    rw [Entry.token?, he, Option.map_none]
  rw [h.entries_eq, ParseTree.filterMap_entries hnone 0 tree]
  exact List.filterMap_some

/-- A token in the table is one of those that were matched. -/
theorem mem_leaves_iff (h : t.IsOf tree source) {token : Token} :
    token ∈ tree.leaves ↔ ∃ id e, t.get? id = some e ∧ e.token? = some token := by
  rw [← h.filterMap_token?, List.mem_filterMap]
  constructor
  · rintro ⟨e, he, htoken⟩
    obtain ⟨id, hid⟩ := List.mem_iff_getElem?.mp he
    rw [Array.getElem?_toList] at hid
    exact ⟨id, e, hid, htoken⟩
  · rintro ⟨id, e, hid, htoken⟩
    refine ⟨e, List.mem_iff_getElem?.mpr ⟨id, ?_⟩, htoken⟩
    rw [Array.getElem?_toList]
    exact hid

theorem tokensCover (h : t.IsOf tree source) : t.TokensCover := by
  obtain ⟨d, hreaches, hlayout⟩ := h.readsThrough
  have hlaid : Laid (.start source.toList) tree.leaves d := hreaches.laid
  have hstart : (Cursor.start source.toList).offset = Text.byteLength [] := rfl
  constructor
  · intro id e text hid htext
    rw [h.source_eq]
    exact hlaid.text?_eq hstart _ (h.mem_leaves_iff.mpr ⟨id, e, hid, Entry.token?_eq htext⟩)
  · intro id id' e e' hlt hid hid' htext htext'
    obtain ⟨text, htext⟩ := Option.isSome_iff_exists.mp htext
    obtain ⟨text', htext'⟩ := Option.isSome_iff_exists.mp htext'
    have hpairwise := hlaid.pairwise
    rw [← h.filterMap_token?, List.pairwise_filterMap, List.pairwise_iff_getElem] at hpairwise
    obtain ⟨hsize, rfl⟩ := Array.getElem?_eq_some_iff.mp hid
    obtain ⟨hsize', rfl⟩ := Array.getElem?_eq_some_iff.mp hid'
    exact hpairwise id id' hsize hsize' hlt _ (Entry.token?_eq htext) _ (Entry.token?_eq htext')
  · intro before a after ha
    rw [h.source_eq] at ha
    rcases hlaid.covered hstart ha with hlayout' | ⟨token, htoken, hcovers⟩ | hmem
    · exact .inl hlayout'
    · obtain ⟨id, e, hid, htoken⟩ := h.mem_leaves_iff.mp htoken
      obtain ⟨text, htext, rfl⟩ := Option.map_eq_some_iff.mp htoken
      exact .inr ⟨id, e, hid, Option.isSome_iff_exists.mpr ⟨text, htext⟩, hcovers⟩
    · exact .inl (hlayout a hmem)

theorem nestsAt (h : t.IsOf tree source) {id : Place} {e : Entry} (hid : t.get? id = some e) :
    t.NestsAt e := by
  obtain ⟨stop, hderives, -⟩ := h.derives
  obtain ⟨hordered, hnested, -⟩ := hderives.nested
  obtain ⟨-, hspan, -⟩ := hordered
  refine ParseTree.nestsAt_of_holds tree h.paired hspan hnested h.holds e ?_
  rw [← h.entries_eq, Array.mem_toList_iff]
  exact Array.mem_of_getElem? hid

end IsOf

/-- The spans of a tree that was read cover its source: the tokens all of it but the layout, and
the spans of children their places within their parents, in order and apart. -/
theorem parse_covers_source (h : parse source limit = .ok t) :
    t.source = source ∧ t.TokensCover ∧ ∀ id e, t.get? id = some e → t.NestsAt e := by
  obtain ⟨tree, hof⟩ := isOf_of_parse h
  exact ⟨hof.source_eq, hof.tokensCover, fun _ _ => hof.nestsAt⟩

/-- Layout in front, between a name and its index, and at the end belongs to no token. -/
theorem parse_covers_index :
    ∃ t, parse "\ta [ -1 ] \r\n" 2 = .ok t ∧ t.TokensCover ∧
      ∀ id e, t.get? id = some e → t.NestsAt e := by
  have hcheck : (parse "\ta [ -1 ] \r\n" 2).toOption.isSome = true := by decide +kernel
  cases h : parse "\ta [ -1 ] \r\n" 2 with
  | error error =>
    rw [h] at hcheck
    cases hcheck
  | ok t => exact ⟨t, rfl, (parse_covers_source h).2⟩

end SyntaxTree

end Reckon
