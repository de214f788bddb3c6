import Reckon.Proofs.Grammar.Nesting
import Reckon.Proofs.Grammar.Respacing
import Reckon.Proofs.Syntax.Placement

/-!
The tokens of a text that is read. A scan reads them one behind the other, and
whatever stands between them and at the ends is layout. So a text is read with
the same tokens when layout is added at the ends of a token, and the nesting of
a text depends on its tokens alone.
-/

namespace Reckon

open Grammar

namespace SyntaxTree

/-- The tokens of a tree in the order of the walk, each with its span. -/
def tokens (t : SyntaxTree) : List (Span × String) :=
  t.postOrder.toList.filterMap fun id =>
    (t.get? id).bind fun e => e.text?.map fun text => (e.span, text)

/-- What the tokens of a tree say. -/
def texts (t : SyntaxTree) : List String := t.tokens.map Prod.snd

end SyntaxTree

namespace ParseTree

mutual

/-- What only tokens are asked for is found in the leaves. -/
theorem filterMap_entries {α : Type} {f : Entry → Option α} (hf : ∀ e, e.text? = none → f e = none)
    (base : Nat) (tree : ParseTree) :
    (tree.entries base).filterMap f =
      tree.leaves.filterMap fun token => f ⟨token.1, token.2.1, .token token.2.2⟩ := by
  cases tree with
  | leaf rule span text => rfl
  | branch rule span children =>
    have hbranch : ∀ ids, f ⟨rule, span, shape rule ids⟩ = none := by
      intro ids
      refine hf _ ?_
      unfold shape
      split <;> rfl
    simp [entries, leaves, filterMap_entriesOf hf base children, hbranch]

theorem filterMap_entriesOf {α : Type} {f : Entry → Option α}
    (hf : ∀ e, e.text? = none → f e = none) (base : Nat) (trees : List ParseTree) :
    (entriesOf base trees).filterMap f =
      (leavesOf trees).filterMap fun token => f ⟨token.1, token.2.1, .token token.2.2⟩ := by
  cases trees with
  | nil => rfl
  | cons tree rest =>
    simp [entriesOf, leavesOf, filterMap_entries hf base tree, filterMap_entriesOf hf _ rest]

end

end ParseTree

namespace SyntaxTree.IsOf

variable {t : SyntaxTree} {tree : ParseTree} {source : String}

/-- The walk from the root comes to every entry in its place. -/
theorem filterMap_postOrder (h : t.IsOf tree source) :
    t.postOrder.toList.filterMap t.get? = tree.entries 0 := by
  have hget : ∀ entries : List Entry,
      (List.range' 0 entries.length).filterMap (fun id => entries[id]?) = entries := by
    intro entries
    rw [← List.range_eq_range']
    induction entries with
    | nil => rfl
    | cons e entries ih => simpa [List.range_succ_eq_map, Function.comp_def] using ih
  have hsize : t.table.entries.toList.length = tree.descendants + 1 := by
    rw [h.entries_eq, ParseTree.length_entries]
  rw [toList_postOrder, h.unfolding_eq, ← hsize, ← h.entries_eq]
  refine Eq.trans ?_ (hget t.table.entries.toList)
  simp only [Array.length_toList, Array.getElem?_toList]
  rfl

/-- What the tokens of a tree that was read are asked for is found in those that were matched. -/
theorem filterMap_tokens {α : Type} {f : Entry → Option α} (h : t.IsOf tree source)
    (hf : ∀ e, e.text? = none → f e = none) :
    t.postOrder.toList.filterMap (fun id => (t.get? id).bind f) =
      tree.leaves.filterMap fun token => f ⟨token.1, token.2.1, .token token.2.2⟩ := by
  rw [← ParseTree.filterMap_entries hf 0 tree, ← h.filterMap_postOrder, List.filterMap_filterMap]

/-- The tokens of a tree that was read are those that were matched. -/
theorem tokens_eq (h : t.IsOf tree source) : t.tokens = tree.leaves.map Prod.snd := by
  rw [tokens, h.filterMap_tokens fun e he => by rw [he]; rfl]
  change tree.leaves.filterMap (fun token => some token.2) = _
  rw [List.filterMap_eq_map']

theorem texts_eq (h : t.IsOf tree source) : t.texts = tree.texts := by
  rw [texts, h.tokens_eq, List.map_map]
  rfl

end SyntaxTree.IsOf

namespace Grammar

/-- A scan of a text takes these tokens, and layout is all that is left. -/
def ReadsThrough (source : List Char) (tokens : List Token) : Prop :=
  ∃ d, Reaches (.start source) tokens ⟨.operator, [], d⟩ ∧ ∀ a ∈ d.rest, isLayout a = true

namespace ReadsThrough

variable {source : List Char} {tokens : List Token}

theorem run_eq (h : ReadsThrough source tokens) :
    (Scanner.start source).run = ⟨lexemesOf tokens, none⟩ := by
  obtain ⟨d, hreaches, hlayout⟩ := h
  have hrest : d.skipLayout.rest = [] := List.dropWhile_eq_nil_iff.mpr hlayout
  have hstuck : Scanner.next? ⟨.operator, [], d⟩ = none :=
    Scanner.operator?_eq_none (by rw [hrest]; rfl) (by simp)
  have hdone : Scanner.isDone ⟨.operator, [], d⟩ = true := by
    simp [Scanner.isDone, hrest]
  rw [hreaches.run, Scanner.run_of_next?_eq_none hstuck]
  simp [Scan.after, hdone]

/-- Without its layout a text is its tokens. -/
theorem filter_eq (h : ReadsThrough source tokens) :
    source.filter (fun a => !isLayout a) = (lexemesOf tokens).flatMap String.toList := by
  obtain ⟨d, hreaches, hlayout⟩ := h
  have hnone : d.rest.filter (fun a => !isLayout a) = [] := by simpa using hlayout
  have hfilter := hreaches.laid.filter_eq
  rwa [hnone, List.append_nil] at hfilter

/-- Texts with the same tokens nest alike. -/
theorem deepest_eq {source' : List Char} {tokens' : List Token} (h : ReadsThrough source tokens)
    (h' : ReadsThrough source' tokens') (htokens : lexemesOf tokens = lexemesOf tokens')
    (limit : Nat) :
    (Nesting.deepest limit source).mapError (fun e => (e.depth, e.limit)) =
      (Nesting.deepest limit source').mapError fun e => (e.depth, e.limit) :=
  Nesting.deepest_congr (by rw [h.filter_eq, h'.filter_eq, htokens]) limit

/-- Layout may be added at the ends of a text and of its tokens. -/
theorem insert {pre gap post : List Char} (h : ReadsThrough source tokens)
    (hsource : source = pre ++ post) (hgap : ∀ a ∈ gap, isLayout a = true)
    (hplace : pre = [] ∨ post = [] ∨ ∃ token ∈ tokens,
      Text.byteLength pre = token.2.1.start ∨ Text.byteLength pre = token.2.1.stop) :
    ∃ tokens', ReadsThrough (pre ++ (gap ++ post)) tokens' ∧
      lexemesOf tokens' = lexemesOf tokens := by
  obtain ⟨d, hreaches, hlayout⟩ := h
  obtain ⟨tail, htail, hrespaced⟩ := hreaches.laid.insert hlayout hsource hgap
    (by simpa [Borders, Scanner.start, Cursor.start] using hplace)
  have htexts : Respaced d.rest tail (lexemesOf tokens) source
      (Cursor.start (pre ++ (gap ++ post))).rest := hrespaced
  obtain ⟨tokens', d', hreaches', hlexemes, hrest⟩ := hreaches.respaced htexts (.of_layout htail)
  exact ⟨tokens', ⟨d', hreaches', hrest ▸ htail⟩, hlexemes⟩

end ReadsThrough

end Grammar

namespace SyntaxTree

variable {t : SyntaxTree} {tree : ParseTree} {source : String} {limit nesting : Nat}

/-- A text that was read has been scanned through, with the tokens of its tree. -/
theorem IsOf.readsThrough (h : t.IsOf tree source) : ReadsThrough source.toList tree.leaves := by
  obtain ⟨stop, hderives, hend⟩ := h.derives
  obtain ⟨d, hd, hreaches⟩ := hderives.reaches []
  have hscan := hreaches.before_layout (Cursor.passesLayout_skipLayout _)
  refine ⟨d, by simpa [Scanner.start] using hscan, ?_⟩
  rw [← hd.skipLayout_eq] at hend
  exact List.dropWhile_eq_nil_iff.mp hend

/-- A text that is scanned through is read within its nesting. -/
theorem parse_of_readsThrough {tokens : List Token} (h : ReadsThrough source.toList tokens)
    (hnesting : Nesting.deepest limit source.toList = .ok nesting) :
    ∃ t tree, parse source limit = .ok t ∧ t.IsOf tree source ∧
      tree.texts = lexemesOf tokens := by
  rcases parse_cases hnesting with ⟨t, tree, ht, hof⟩ | ⟨_, _, place, -, hstuck⟩
  · have hscan := hof.scan_eq
    rw [h.run_eq] at hscan
    exact ⟨t, tree, ht, hof, (Scan.mk.inj hscan).1.symm⟩
  · rw [h.run_eq] at hstuck
    cases hstuck

end SyntaxTree

end Reckon
