import Reckon.Proofs.Syntax.NestingLimit

/-!
What the nesting limit rejects. The scan counts every character of a sign, so a
sign of two characters, which is one level around its operand, counts twice. A
text can exceed a limit that all its levels are within; it never exceeds twice
such a limit, and without signs of two characters not even the limit itself.
-/

namespace Reckon

open Grammar

namespace ParseTree

mutual

/-- Where something stands before an operand, it is a sign. -/
def Signs : ParseTree → Prop
  | leaf _ _ _ => True
  | branch rule _ children =>
    (rule = .unary → ∀ sign operand, children = [sign, operand] →
      ∃ (op : UnaryOperator) (span span' : Span),
        sign = branch .unaryOperator span [leaf (.symbol op.symbol) span' op.text]) ∧
      SignsAll children

def SignsAll : List ParseTree → Prop
  | [] => True
  | tree :: rest => tree.Signs ∧ SignsAll rest

end

variable {t : SyntaxTree} {isNumber : Place → Bool}

mutual

theorem exists_sign_of_standsAt (tree : ParseTree) (hsigns : tree.Signs) {counts : Bool}
    {id place operator operand : Place} {span : Span} (h : tree.StandsAt t isNumber counts id)
    (hplace : place ∈ t.table.unfolding id)
    (he : t.get? place = some ⟨.unary, span, .node [operator, operand]⟩) :
    ∃ (op : UnaryOperator) (token : Place) (span' span'' : Span),
      t.get? operator = some ⟨.unaryOperator, span', .node [token]⟩ ∧
      t.get? token = some ⟨.symbol op.symbol, span'', .token op.text⟩ := by
  cases tree with
  | leaf rule span text =>
    obtain ⟨hid, -⟩ := h
    have hchildren : t.table.children id = [] := Evaluation.children_of_get? hid
    rw [EntryTable.unfolding_eq, hchildren] at hplace
    obtain rfl := List.mem_singleton.mp hplace
    rw [hid] at he
    cases he
  | branch rule span' children =>
    obtain ⟨ids, hid, heven, hstand⟩ := h
    obtain ⟨hsign, hall⟩ := hsigns
    have hchildren : t.table.children id = ids := by
      rw [← children_shape heven]
      exact Evaluation.children_of_get? hid
    rw [EntryTable.unfolding_eq, hchildren] at hplace
    rcases List.mem_append.mp hplace with hbelow | hhere
    · exact exists_sign_of_standAt children hall hstand hbelow he
    · obtain rfl := List.mem_singleton.mp hhere
      rw [hid] at he
      obtain ⟨rfl, rfl, hshape⟩ : rule = .unary ∧ span' = span ∧
          shape rule ids = .node [operator, operand] := by simpa using he
      obtain rfl : ids = [operator, operand] := by
        simpa [shape, Rule.role] using hshape
      match children, hstand with
      | [sign, _], ⟨_, _, rfl, hstands, _, _, rfl, _, rfl⟩ =>
        obtain ⟨op, span, span', rfl⟩ := hsign rfl _ _ rfl
        obtain ⟨_, hoperator, -, token, _, rfl, ⟨htoken, -⟩, rfl⟩ := hstands
        exact ⟨op, token, span, span', hoperator, htoken⟩

theorem exists_sign_of_standAt (trees : List ParseTree) (hsigns : SignsAll trees) {counts : Bool}
    {ids : List Place} {place operator operand : Place} {span : Span}
    (h : StandAt t isNumber counts trees ids) (hplace : place ∈ ids.flatMap t.table.unfolding)
    (he : t.get? place = some ⟨.unary, span, .node [operator, operand]⟩) :
    ∃ (op : UnaryOperator) (token : Place) (span' span'' : Span),
      t.get? operator = some ⟨.unaryOperator, span', .node [token]⟩ ∧
      t.get? token = some ⟨.symbol op.symbol, span'', .token op.text⟩ := by
  cases trees with
  | nil =>
    obtain rfl : ids = [] := h
    cases hplace
  | cons tree rest =>
    obtain ⟨id, more, rfl, htree, hrest⟩ := h
    rw [List.flatMap_cons] at hplace
    rcases List.mem_append.mp hplace with hhere | hmore
    · exact exists_sign_of_standsAt tree hsigns.1 htree hhere he
    · exact exists_sign_of_standAt rest hsigns.2 hrest hmore he

end

end ParseTree

namespace Grammar

open ParseTree

theorem Cursor.signs_branch (c stop : Cursor) {r : Rule} {children : List ParseTree}
    (hrule : r ≠ .unary) (h : SignsAll children) : (c.branch stop r children).Signs :=
  ⟨fun h => absurd h hrule, h⟩

theorem Cursor.signs_atom {c stop : Cursor} {children : List ParseTree}
    (h : SignsAll children) : (c.atom stop children).Signs :=
  ⟨nofun, signs_branch c stop nofun h, trivial⟩

theorem Derives.signs {p : Part} {c stop : Cursor} {trees : List ParseTree}
    (h : Derives p c trees stop) : SignsAll trees := by
  induction h with
  | @number c lexeme rest _ =>
    exact ⟨Cursor.signs_atom ⟨c.signs_branch _ nofun ⟨trivial, trivial⟩, trivial⟩, trivial⟩
  | name => exact ⟨Cursor.signs_atom ⟨trivial, trivial⟩, trivial⟩
  | indexed _ _ _ _ _ ih =>
    exact ⟨Cursor.signs_atom ⟨trivial, trivial, ih.1, trivial, trivial⟩, trivial⟩
  | group _ _ _ ih => exact ⟨Cursor.signs_atom ⟨trivial, ih.1, trivial, trivial⟩, trivial⟩
  | @signed c stop s rest tree hsymbol _ ih =>
    obtain ⟨op, rfl⟩ := exists_unaryOperator hsymbol
    refine ⟨⟨?_, c.signs_branch _ nofun ⟨trivial, trivial⟩, ih⟩, trivial⟩
    rintro - sign operand heq
    obtain ⟨rfl, -⟩ := List.cons.inj heq
    exact ⟨op, _, _, rfl⟩
  | bare _ ih => exact ih
  | @tier c d stop _ _ _ _ _ _ ihFirst ihRounds =>
    exact ⟨c.signs_branch stop nofun ⟨ihFirst.1, d.skipLayout.signs_branch stop nofun ihRounds,
      trivial⟩, trivial⟩
  | done => trivial
  | @round _ d _ _ _ _ _ _ _ _ _ _ _ _ _ ihOperand ihRounds =>
    exact ⟨d.signs_branch _ nofun ⟨trivial, trivial⟩, ihOperand.1, ihRounds⟩
  | @expression c stop _ _ ih => exact ⟨c.signs_branch stop nofun ih, trivial⟩

end Grammar

namespace SyntaxTree

variable {source : String} {limit : Nat} {t : SyntaxTree} {l l' : Levels} {id place : Place}

/-- In a tree that was read a sign has one character more than its first, or none. -/
theorem IsOf.otherCharacters_eq {tree : ParseTree} (h : t.IsOf tree source) {span : Span}
    {operator operand : Place} (he : t.get? id = some ⟨.unary, span, .node [operator, operand]⟩) :
    ∃ (op : UnaryOperator) (token : Place) (span : Span),
      t.get? token = some ⟨.symbol op.symbol, span, .token op.text⟩ ∧
      t.otherCharacters operator = op.text.length - 1 := by
  obtain ⟨stop, hderives, -⟩ := h.derives
  have hroot : id ∈ t.table.unfolding t.root := by
    rw [h.unfolding_eq, ← h.size_eq]
    have hlt : id < t.size := (Array.getElem?_eq_some_iff.mp he).1
    exact List.mem_range'_1.mpr ⟨Nat.zero_le _, by rwa [Nat.zero_add]⟩
  obtain ⟨op, token, span', span'', hoperator, htoken⟩ := tree.exists_sign_of_standsAt
    hderives.signs.1 (h.standsAt h.countsNumbers) hroot he
  exact ⟨op, token, span'', htoken, by
    simp only [otherCharacters, Evaluation.symbolOf_eq hoperator rfl htoken]⟩

/-- Where no sign has more than so many characters behind its first, every level is counted at
most so many times again. -/
theorem Under.counted_le (others : Nat) (h : t.Under l id l' place)
    (hothers : ∀ id span operator operand,
      t.get? id = some ⟨.unary, span, .node [operator, operand]⟩ →
        t.otherCharacters operator ≤ others)
    (hl : l.counted ≤ (others + 1) * l.around) : l'.counted ≤ (others + 1) * l'.around := by
  induction h with
  | here => exact hl
  | @deeper l l' _ id child _ e he hchild _ ih =>
    apply ih
    have hsucc : (others + 1) * (l.around + 1) = (others + 1) * l.around + (others + 1) :=
      Nat.mul_succ _ _
    obtain ⟨rule, span, shape⟩ := e
    unfold Levels.counted at hl ⊢
    obtain rfl | rfl | rfl | ⟨operator, operand, rfl, rfl, rfl⟩ := cases_of_mem_levelsBelow hchild
    · exact hl
    · simp only [Levels.grouped]
      omega
    · simp only [Levels.indexed]
      omega
    · have hsign := hothers _ _ _ _ he
      simp only [Levels.signed]
      omega

/-- The levels counted around a token are at most twice those around it. -/
theorem IsOf.counted_le {tree : ParseTree} (h : t.IsOf tree source) (htoken : t.TokenAt l id) :
    l.counted ≤ 2 * l.around := by
  refine htoken.1.counted_le 1 ?_ (Nat.le_refl 0)
  intro id span operator operand he
  obtain ⟨op, _, _, -, hothers⟩ := h.otherCharacters_eq he
  rw [hothers]
  cases op <;> decide

/-- Without signs of two characters no more levels are counted than there are. -/
theorem IsOf.counted_le_around {tree : ParseTree} (h : t.IsOf tree source)
    (hsingle : ∀ id e, t.get? id = some e →
      e.rule ≠ .symbol .increment ∧ e.rule ≠ .symbol .decrement)
    (htoken : t.TokenAt l id) : l.counted ≤ l.around := by
  rw [← Nat.one_mul l.around]
  refine htoken.1.counted_le 0 ?_ (Nat.le_refl 0)
  intro id span operator operand he
  obtain ⟨op, token, span', hsymbol, hothers⟩ := h.otherCharacters_eq he
  obtain ⟨hincrement, hdecrement⟩ := hsingle token _ hsymbol
  rw [hothers]
  cases op with
  | increment => exact absurd rfl hincrement
  | decrement => exact absurd rfl hdecrement
  | plus | neg | not => decide

/-- A text that some limit admits is too deep for the limits below a level counted around one of
its tokens, and for no others. -/
theorem exists_tooDeep_iff (h : parse source limit = .ok t) (limit' : Nat) :
    (∃ depth bound span, parse source limit' = .error ⟨.tooDeep depth bound, span⟩) ↔
      ∃ l id, t.TokenAt l id ∧ limit' < l.counted := by
  obtain ⟨tree, hof⟩ := isOf_of_parse h
  have hiff := hof.exists_deepest_eq_ok_iff limit'
  cases hnesting : Nesting.deepest limit' source.toList with
  | ok nesting =>
    have hcounted := hiff.mp ⟨nesting, hnesting⟩
    constructor
    · rintro ⟨depth, bound, span, hdeep⟩
      rw [parse_of_deepest h hnesting] at hdeep
      cases hdeep
    · rintro ⟨l, id, htoken, hlt⟩
      exact absurd (hcounted l id htoken) (Nat.not_le.mpr hlt)
  | error excess =>
    refine iff_of_true ⟨excess.depth, excess.limit, _, by rw [parse, hnesting]; rfl⟩ ?_
    by_contra hnone
    simp only [not_exists, not_and, Nat.not_lt] at hnone
    obtain ⟨nesting, hok⟩ := hiff.mpr hnone
    rw [hnesting] at hok
    cases hok

theorem parse_of_counted_le (h : parse source limit = .ok t) {limit' : Nat}
    (hcounted : ∀ l id, t.TokenAt l id → l.counted ≤ limit') : parse source limit' = .ok t := by
  obtain ⟨tree, hof⟩ := isOf_of_parse h
  obtain ⟨nesting, hnesting⟩ := (hof.exists_deepest_eq_ok_iff limit').mpr hcounted
  exact parse_of_deepest h hnesting

/-- A text that some limit admits is too deep just for the limits below a level that is counted
around one of its tokens. That spares every limit that the levels around its tokens are within,
just when no token has more levels counted around it than there are around some token. Twice such
a limit admits the text in any case, and the limit itself does when there is no sign of two
characters. -/
theorem limit_admits_shallow (h : parse source limit = .ok t) :
    (∀ limit', (∃ depth bound span, parse source limit' = .error ⟨.tooDeep depth bound, span⟩) ↔
        ∃ l id, t.TokenAt l id ∧ limit' < l.counted) ∧
      ((∀ limit', (∀ l id, t.TokenAt l id → l.around ≤ limit') →
          ∀ depth bound span, parse source limit' ≠ .error ⟨.tooDeep depth bound, span⟩) ↔
        ∀ l id, t.TokenAt l id → ∃ l' id', t.TokenAt l' id' ∧ l.counted ≤ l'.around) ∧
      (∀ limit', (∀ l id, t.TokenAt l id → l.around ≤ limit') →
        parse source (2 * limit') = .ok t) ∧
      ((∀ id e, t.get? id = some e →
          e.rule ≠ .symbol .increment ∧ e.rule ≠ .symbol .decrement) →
        ∀ limit', (∀ l id, t.TokenAt l id → l.around ≤ limit') →
          parse source limit' = .ok t) := by
  obtain ⟨tree, hof⟩ := isOf_of_parse h
  have hdeep := exists_tooDeep_iff h
  refine ⟨hdeep, ⟨?_, ?_⟩, ?_, ?_⟩
  · intro hspared l id htoken
    by_contra hnone
    simp only [not_exists, not_and, Nat.not_le] at hnone
    -- the least limit below the levels counted around the token stops the text
    have hbelow : l.counted - 1 < l.counted := by
      have hlt := hnone l id htoken
      omega
    obtain ⟨depth, bound, span, herror⟩ := (hdeep (l.counted - 1)).mpr ⟨l, id, htoken, hbelow⟩
    exact hspared _ (fun l' id' htoken' => Nat.le_sub_one_of_lt (hnone l' id' htoken'))
      depth bound span herror
  · intro hcovered limit' haround depth bound span herror
    obtain ⟨l, id, htoken, hlt⟩ := (hdeep limit').mp ⟨depth, bound, span, herror⟩
    obtain ⟨l', id', htoken', hle⟩ := hcovered l id htoken
    exact absurd (hle.trans (haround l' id' htoken')) (Nat.not_le.mpr hlt)
  · intro limit' haround
    exact parse_of_counted_le h fun l id htoken =>
      (hof.counted_le htoken).trans (Nat.mul_le_mul_left 2 (haround l id htoken))
  · intro hsingle limit' haround
    exact parse_of_counted_le h fun l id htoken =>
      (hof.counted_le_around hsingle htoken).trans (haround l id htoken)

private theorem exists_parse_doubled_sign :
    ∃ t, parse "++a" 2 = .ok t ∧ ∀ l id, t.TokenAt l id → l.around ≤ 1 := by
  have hcheck : (match parse "++a" 2 with
      | .ok t => decide (t.root < t.size) &&
        (t.tokensBelow t.size .outside t.root).all fun token => token.1.around ≤ 1
      | .error _ => false) = true := by decide +kernel
  cases h : parse "++a" 2 with
  | error error =>
    rw [h] at hcheck
    cases hcheck
  | ok t =>
    rw [h] at hcheck
    obtain ⟨hroot, hall⟩ := Bool.and_eq_true_iff.mp hcheck
    refine ⟨t, rfl, ?_⟩
    rintro l id ⟨hunder, htoken⟩
    have hmem := mem_tokensBelow hunder htoken (of_decide_eq_true hroot)
    exact of_decide_eq_true (List.all_eq_true.mp hall _ hmem)

/-- One level stands around the operand of a sign of two characters, and a limit of two admits
it. -/
theorem parse_doubled_sign :
    ∃ t, parse "++a" (2 * 1) = .ok t ∧ ∀ l id, t.TokenAt l id → l.around ≤ 1 := by
  obtain ⟨t, ht, haround⟩ := exists_parse_doubled_sign
  exact ⟨t, (limit_admits_shallow ht).2.2.1 1 haround, haround⟩

/-- A limit of one does not, though it is all that there is around a token. -/
theorem not_limit_admits_shallow :
    ¬∀ source limit limit' t, parse source limit = .ok t →
      (∀ l id, t.TokenAt l id → l.around ≤ limit') →
        ∀ depth bound span, parse source limit' ≠ .error ⟨.tooDeep depth bound, span⟩ := by
  intro hadmits
  obtain ⟨t, ht, haround⟩ := exists_parse_doubled_sign
  exact hadmits _ _ 1 t ht haround 2 1 ⟨1, 2⟩ rfl

end SyntaxTree

end Reckon
