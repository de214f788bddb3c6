import Reckon.Proofs.Evaluation.Reproduction
import Reckon.Proofs.Evaluation.Scalars
import Reckon.Proofs.Syntax.Threshold

/-!
Indexing a name. A text that evaluates to an integer may stand in brackets behind
the name of an array: what is read there is what is read of the text alone, so
that the result is the element at the integer, or a failure that says which
integer it was and how long the array is. The advice given with the failure is
the range of the indices that an array has, unless it has none.
-/

namespace Reckon

open Grammar ParseTree

namespace Sequence

variable {items : Sequence} {k : Int64}

theorem size_values (items : Sequence) : items.values.size = items.size := by
  cases items <;> exact Array.size_map

theorem get?_eq (h : 0 ≤ k.toInt) : items.get? k = items.values[k.toInt.toNat]? := by
  unfold get?
  rw [if_pos h]
  cases items <;> exact Array.getElem?_map.symm

theorem isSome_get?_iff : (items.get? k).isSome = true ↔ 0 ≤ k.toInt ∧ k.toInt < items.size := by
  by_cases h : 0 ≤ k.toInt
  · rw [get?_eq h, Option.isSome_iff_ne_none, ne_eq, Array.getElem?_eq_none_iff, size_values]
    omega
  · unfold get?
    rw [if_neg h]
    exact ⟨nofun, fun hbounds => absurd hbounds.1 h⟩

/-- A range holds just the indices that an array has. -/
def HasRange (items : Sequence) (low high : Int) : Prop :=
  ∀ k : Int64, (items.get? k).isSome = true ↔ low ≤ k.toInt ∧ k.toInt ≤ high

/-- No range from zero on is that of an empty array. -/
theorem hasRange_iff : items.HasRange 0 (items.size - 1 : Nat) ↔ items.size ≠ 0 := by
  constructor
  · intro h hempty
    have hzero : (items.get? 0).isSome = true :=
      (h 0).mpr ⟨Int.le_refl 0, Int.natCast_nonneg _⟩
    have hlt := (isSome_get?_iff.mp hzero).2
    rw [hempty] at hlt
    exact absurd hlt (by decide)
  · intro h k
    rw [isSome_get?_iff]
    omega

end Sequence

/-- The advice that indices lie in a range. -/
def validIndices (low high : Int) : String :=
  "Valid indices are " ++ String.ofList (Text.signedDecimal low) ++ " to " ++
    String.ofList (Text.signedDecimal high)

/-- Advice about indices can be read in one way only. -/
theorem validIndices_inj {low low' high high' : Int}
    (h : validIndices low high = validIndices low' high') : low = low' ∧ high = high' := by
  have hblank : ∀ n, ' ' ∉ Text.signedDecimal n := fun n =>
    (Text.isPlain_signedDecimal n).not_mem rfl
  have htext : ∀ m n, (validIndices m n).toList = "Valid indices are ".toList ++
      (Text.signedDecimal m ++ ' ' :: (['t', 'o', ' '] ++ Text.signedDecimal n)) := by
    intro m n
    have hto : ∀ text, " to ".toList ++ text = ' ' :: (['t', 'o', ' '] ++ text) := fun _ => rfl
    unfold validIndices
    rw [String.toList_append, String.toList_append, String.toList_append,
      String.toList_ofList (l := Text.signedDecimal m),
      String.toList_ofList (l := Text.signedDecimal n), List.append_assoc, List.append_assoc, hto]
  have heq := congrArg String.toList h
  rw [htext, htext] at heq
  obtain ⟨hlow, hhigh⟩ :=
    Text.append_cons_inj (hblank low) (hblank low') (List.append_cancel_left heq)
  exact ⟨Text.signedDecimal_injective hlow,
    Text.signedDecimal_injective (List.append_cancel_left hhigh)⟩

theorem EvaluationCause.help?_indexOutOfBounds (i : Int64) (size : Nat) :
    (indexOutOfBounds i size).help? = some (validIndices 0 (size - 1 : Nat)) := by
  have hdigits : toString (size - 1) =
      String.ofList (Text.signedDecimal ((size - 1 : Nat) : Int)) := by
    rw [Text.signedDecimal, if_neg (Int.not_lt.mpr (Int.natCast_nonneg _))]
    rfl
  have hzero : String.ofList (Text.signedDecimal 0) = "0" := rfl
  unfold help? validIndices
  dsimp only
  rw [hdigits, hzero]
  rfl

namespace Grammar

variable {name index outer : List Char} {tokens : List Token} {c stop : Cursor}
  {tree first : ParseTree}

/-- A text that is scanned through is scanned through in the same way where it stands in a
bracket. -/
theorem ReadsThrough.reaches_closing (h : ReadsThrough index tokens) {bracket : Bracket}
    (hc : c.rest = index ++ bracket.closing :: outer) (opened : List Bracket) :
    ∃ tokens' d, Reaches ⟨.operand, bracket :: opened, c⟩ tokens' ⟨.operator, opened, d⟩ ∧
      d.rest = outer ∧
      lexemesOf tokens' = lexemesOf tokens ++ [String.ofList [bracket.closing]] := by
  obtain ⟨d, hreaches, hlayout⟩ := h
  have hskipped : (d.rest ++ bracket.closing :: outer).dropWhile isLayout =
      bracket.closing :: outer := by
    rw [List.dropWhile_append_of_pos hlayout]
    cases bracket <;> rfl
  have hends : Replaces .operator (lastRule? tokens) d.rest
      (d.rest ++ bracket.closing :: outer) := by
    refine ⟨.inr fun a ha => ?_, fun _ => ?_⟩
    · cases hrest : d.rest with
      | nil =>
        rw [hrest] at ha
        obtain rfl := Option.some.inj ha
        cases bracket <;> exact .inr (by decide)
      | cons b more =>
        rw [hrest] at ha hlayout
        obtain rfl := Option.some.inj ha
        exact .inl (hlayout b List.mem_cons_self)
    · rw [hskipped]
      cases bracket <;> exact nofun
  obtain ⟨text, htext, hcut⟩ := hreaches.laid.cut (List.append_nil d.rest).symm
  obtain rfl : index = text := by
    rw [List.append_nil] at htext
    exact htext
  have hrespaced : Respaced d.rest (d.rest ++ bracket.closing :: outer) (lexemesOf tokens) index
      c.rest := hc ▸ hcut (bracket.closing :: outer)
  obtain ⟨tokens', d', hinside, hlexemes, hrest⟩ := hreaches.respaced hrespaced hends
  have hclose : Step ⟨.operator, bracket :: opened, d'⟩
      [d'.skipLayout.token bracket.closingRule [bracket.closing] outer]
      ⟨.operator, opened, d'.skipLayout.after [bracket.closing] outer⟩ := by
    refine .closing bracket rfl ?_
    rw [Cursor.skipLayout, Cursor.after_rest, hrest, hskipped]
  refine ⟨_, _, (hinside.within (bracket :: opened)).trans (.single hclose), rfl, ?_⟩
  rw [lexemesOf_append, hlexemes]
  rfl

/-- A name ends where a bracket opens. -/
theorem Lexeme.identifier?_before_bracket (h : identifier? name = some (name, []))
    (rest : List Char) : identifier? (name ++ '[' :: rest) = some (name, '[' :: rest) := by
  obtain ⟨-, a, more, rfl, hstart, hmore⟩ := identifier?_eq_some h
  exact identifier?_append hstart hmore (by rintro b ⟨⟩; rfl)

/-- A text that is scanned through may be the index behind a name. -/
theorem ReadsThrough.indexed (h : ReadsThrough index tokens)
    (hname : Lexeme.identifier? name = some (name, [])) :
    ∃ tokens', ReadsThrough (name ++ '[' :: (index ++ [']'])) tokens' ∧
      lexemesOf tokens' = String.ofList name :: "[" :: (lexemesOf tokens ++ ["]"]) := by
  let start : Cursor := .start (name ++ '[' :: (index ++ [']']))
  let opening : Cursor := start.after name ('[' :: (index ++ [']']))
  let inner : Cursor := opening.after ['['] (index ++ [']'])
  have hname' : Lexeme.identifier? start.rest = some (name, '[' :: (index ++ [']'])) :=
    Lexeme.identifier?_before_bracket hname _
  obtain ⟨hskip, -⟩ := Scanner.name_head hname'
  have hopening : opening.skipLayout = opening :=
    Cursor.skipLayout_eq_self (by rintro b ⟨⟩; rfl)
  have hopen : Step ⟨.operand, [], start⟩ _ ⟨.operand, [.square], inner⟩ :=
    .indexed hskip.symm hname' hopening.symm rfl
  have hinner : inner.rest = index ++ Bracket.square.closing :: [] := rfl
  obtain ⟨tokens', d, hinside, hrest, hlexemes⟩ := h.reaches_closing hinner []
  refine ⟨_, ⟨d, .step hopen hinside, by rw [hrest]; exact nofun⟩, ?_⟩
  rw [lexemesOf_append, hlexemes]
  rfl

/-- An operand of some tiers starts with an operand, and is that one if no more tokens follow. -/
theorem Derives.exists_operand {ts : List Tier} (h : Derives (.tiers ts) c [tree] stop) :
    ∃ first stop' more, Derives .operand c [first] stop' ∧ tree.texts = first.texts ++ more ∧
      (more = [] → ∀ env r, first.Gives env r → tree.Gives env r) := by
  induction ts generalizing tree stop with
  | nil =>
    cases h with
    | bare hoperand => exact ⟨tree, stop, [], hoperand, (List.append_nil _).symm, fun _ _ _ => id⟩
  | cons t tighter ih =>
    cases h with
    | @tier _ d _ _ _ tree' trees hfirst hrounds =>
      obtain ⟨first, stop', more, hoperand, htexts, hgives⟩ := ih hfirst
      refine ⟨first, stop', more ++ textsOf trees, hoperand, by simp [htexts], ?_⟩
      intro hnil env r hr
      obtain ⟨hmore, htrees⟩ := List.append_eq_nil_iff.mp hnil
      have hnone : trees = [] := by
        cases hrounds with
        | done => rfl
        | round => simp at htrees
      subst hnone
      exact gives_tier_nil (hgives hmore env r hr)

/-- Where a name stands before a bracket, only an index is derived. -/
theorem Derives.exists_index {lexeme rest : List Char} (h : Derives .operand c [first] stop)
    (hname : Lexeme.identifier? c.rest = some (lexeme, rest))
    (hopen : (c.after lexeme rest).skipLayout.rest.head? = some '[') :
    ∃ (d e : Cursor) (inner outer : List Char) (index : ParseTree),
      Derives .expression (d.after ['['] inner).skipLayout [index] e ∧
      first = c.atom stop [c.leaf .identifier lexeme rest, d.leaf .openBracket ['['] inner, index,
        e.skipLayout.leaf .closeBracket [']'] outer] := by
  obtain ⟨-, hsymbol, hparen⟩ := Scanner.name_head hname
  cases h with
  | number hnumber =>
    rw [Lexeme.number?_eq_none_of_identifier? (Option.isSome_of_eq_some hname)] at hnumber
    cases hnumber
  | name hname' hbare =>
    obtain ⟨rfl, rfl⟩ := Prod.mk.inj (Option.some.inj (hname.symm.trans hname'))
    exact absurd hopen hbare
  | indexed hname' hd hopen' hindex hclose =>
    obtain ⟨rfl, rfl⟩ := Prod.mk.inj (Option.some.inj (hname.symm.trans hname'))
    exact ⟨_, _, _, _, _, hindex, rfl⟩
  | group hopen' =>
    rw [hopen', Lexeme.exactly?_cons] at hparen
    cases hparen
  | signed hsymbol' =>
    rw [hsymbol] at hsymbol'
    cases hsymbol'

/-- An expression whose tree is that of a text with a value, but for the spans, has the value. -/
theorem Derives.gives_of_bare_eq {env : Environment} {v : Value}
    (h : Derives .expression c [tree] stop) (hbare : tree.bare = first.bare)
    (hv : first.unfolded.evaluate env = .ok v) : tree.Gives env.withTruthValues (.ok v) := by
  obtain ⟨tree', r, heq, hgives, -⟩ := h.traced List.suffix_rfl env.withTruthValues
  obtain rfl := List.singleton_inj.mp heq
  have hcause := Unfolded.evaluate_congr env
    (by rw [← unfolded_bare, ← unfolded_bare, hbare] : tree.unfolded.bare = first.unfolded.bare)
  rw [hgives.evaluate_eq, hv] at hcause
  cases r with
  | error failure => cases hcause
  | ok v' =>
    cases hcause
    exact hgives

/-- An expression with the tokens of a name and of an index in its brackets has the element of the
array as its value, or fails where the array has none. -/
theorem Derives.gives_element {env : Environment} {items : Sequence} {i : Int64}
    {lexeme more : List Char} {c' stop' : Cursor} (h : Derives .expression c [tree] stop)
    (hname : Lexeme.identifier? c.rest = some (lexeme, '[' :: more))
    (hindex : Derives .expression c' [first] stop')
    (htexts : tree.texts = String.ofList lexeme :: "[" :: (first.texts ++ ["]"]))
    (hi : first.unfolded.evaluate env = .ok (.integer i))
    (hitems : env.withTruthValues.get? (String.ofList lexeme) = some (.array items)) :
    ∃ span, tree.Gives env.withTruthValues (match items.get? i with
      | some v => .ok v
      | none => .error ⟨.indexOutOfBounds i items.size, span⟩) := by
  have hopen : (c.after lexeme ('[' :: more)).skipLayout.rest.head? = some '[' := by
    rw [Cursor.skipLayout_eq_self (by rintro b ⟨⟩; rfl)]
    rfl
  cases h with
  | expression htiers =>
    obtain ⟨operand, stop₁, behind, hoperand, hoperandTexts, hgives⟩ := htiers.exists_operand
    obtain ⟨d, e, inner, outer, index, hinside, rfl⟩ := hoperand.exists_index hname hopen
    have htokens : textsOf [index] ++ "]" :: behind = textsOf [first] ++ ["]"] := by
      simpa [hoperandTexts] using htexts
    obtain ⟨htrees, hclosing⟩ := hinside.unique hindex (by decide) htokens
      (Part.ends_closing _ (.inl rfl) _) (Part.ends_closing _ (.inl rfl) _)
    obtain ⟨-, rfl⟩ := List.cons.inj hclosing
    have hinteger := hinside.gives_of_bare_eq (List.cons.inj htrees).1 hi
    refine ⟨⟨c.offset, stop₁.offset⟩, gives_single (.inl rfl) (hgives rfl _ _ ?_)⟩
    have helement : (c.atom stop₁ [c.leaf .identifier lexeme ('[' :: more),
        d.leaf .openBracket ['['] inner, index,
        e.skipLayout.leaf .closeBracket [']'] outer]).Gives env.withTruthValues _ :=
      gives_indexed hinteger
    simp only [bind, Except.bind, Valued.indexed, Valued.required, withValue, Cursor.leafValue,
      hitems] at helement
    exact helement

end Grammar

/-- In brackets behind a name a text fits into every larger limit. -/
theorem Nesting.fits_indexed {name index : List Char} {limit limit' : Nat}
    (hname : Lexeme.identifier? name = some (name, [])) (h : Fits limit .start index)
    (hlimit : limit < limit') : Fits limit' .start (name ++ '[' :: (index ++ [']'])) := by
  have hword := leads_name hname .start
  let inside : Nesting := ⟨[1], 1, 0, true⟩
  have hopen : Nesting.start.settled.step '[' = inside := step_open (.inr rfl) _
  have hdepth : inside.depth ≤ limit' := Nat.lt_of_le_of_lt (Nat.zero_le limit) hlimit
  have hinside : Fits limit' inside index :=
    h.enclosed ⟨rfl, rfl, .inl rfl⟩ hlimit rfl rfl
  have hclose : ((inside.after index).step ']').depth ≤ (inside.after index).depth := by
    by_contra hlt
    exact absurd (opens_of_depth_lt (Nat.lt_of_not_le hlt)).1 (by decide)
  refine fits_append.mpr ⟨(hword.2 limit' (Nat.zero_le _)).mpr trivial, ?_⟩
  rw [hword.1]
  refine ⟨by rwa [hopen], ?_⟩
  rw [hopen, fits_append]
  exact ⟨hinside, hclose.trans (depth_after_le hinside hdepth), trivial⟩

namespace Source

/-- A name with an index behind it in brackets. -/
def indexed (name index : String) : String := name ++ "[" ++ index ++ "]"

theorem toList_indexed (name index : String) :
    (indexed name index).toList = name.toList ++ '[' :: (index.toList ++ [']']) := by
  have hopen : "[".toList = ['['] := rfl
  have hclose : "]".toList = [']'] := rfl
  unfold indexed
  rw [String.toList_append, String.toList_append, String.toList_append, hopen, hclose]
  rw [List.append_assoc, List.append_assoc, List.singleton_append]

variable {name index : String} {env : Environment} {items : Sequence} {i : Int64}
  {limit limit' : Nat}

/-- A text that has a value has been read, and its tree has the value. -/
theorem exists_of_evaluate_eq_ok {source : String} {v : Value}
    (h : evaluate source env limit = .ok v) :
    ∃ t tree, SyntaxTree.parse source limit = .ok t ∧ t.IsOf tree source ∧
      tree.unfolded.evaluate env = .ok v := by
  rcases parse_fails_or_evaluates source env limit with ⟨error, -, heq⟩ | ⟨t, tree, ht, hof, heq⟩
  · rw [heq] at h
    cases h
  · refine ⟨t, tree, ht, hof, ?_⟩
    cases hresult : tree.unfolded.evaluate env with
    | error error =>
      rw [heq, hresult] at h
      cases h
    | ok v' =>
      rw [heq, hresult] at h
      rw [Except.ok.inj h]

/-- Within a limit an index in its brackets gives the element of the array, if there is one. -/
theorem evaluate_element {nesting : Nat}
    (hname : Lexeme.identifier? name.toList = some (name.toList, []))
    (hitems : env.withTruthValues.get? name = some (.array items))
    (hindex : evaluate index env limit = .ok (.integer i))
    (hnesting : Nesting.deepest limit' (indexed name index).toList = .ok nesting) :
    ∃ span, evaluate (indexed name index) env limit' = match items.get? i with
      | some v => .ok v
      | none => .error (.evaluation ⟨.indexOutOfBounds i items.size, span⟩
          (indexed name index)) := by
  obtain ⟨_, first, -, hofIndex, hi⟩ := exists_of_evaluate_eq_ok hindex
  obtain ⟨stopIndex, hderivesIndex, -⟩ := hofIndex.derives
  obtain ⟨tokens, hreads, htokens⟩ := hofIndex.readsThrough.indexed hname
  rw [← toList_indexed] at hreads
  obtain ⟨t, tree, ht, hof, htexts⟩ := SyntaxTree.parse_of_readsThrough hreads hnesting
  obtain ⟨stop, hderives, -⟩ := hof.derives
  have hnameHere : Lexeme.identifier? (Cursor.start (indexed name index).toList).rest =
      some (name.toList, '[' :: (index.toList ++ [']'])) := by
    rw [toList_indexed]
    exact Lexeme.identifier?_before_bracket hname _
  rw [(Scanner.name_head hnameHere).1] at hderives
  rw [htokens] at htexts
  rw [← String.ofList_toList (s := name)] at hitems
  obtain ⟨span, hgives⟩ :=
    hderives.gives_element hnameHere hderivesIndex htexts hi hitems
  refine ⟨span, ?_⟩
  rw [evaluate_of_parse ht hof, hgives.evaluate_eq]
  cases items.get? i <;> rfl

/-- The advice about an index that an array does not have is a range, and it is the range of the
indices that the array has if there are any. -/
theorem help_indexOutOfBounds (items : Sequence) (i : Int64) :
    (∃ low high,
      (EvaluationCause.indexOutOfBounds i items.size).help? = some (validIndices low high)) ∧
    ∀ low high,
      (EvaluationCause.indexOutOfBounds i items.size).help? = some (validIndices low high) →
        (items.HasRange low high ↔ items.size ≠ 0) := by
  have hhelp := EvaluationCause.help?_indexOutOfBounds i items.size
  refine ⟨⟨_, _, hhelp⟩, ?_⟩
  intro low high hadvice
  obtain ⟨rfl, rfl⟩ := validIndices_inj (Option.some.inj (hhelp.symm.trans hadvice))
  exact Sequence.hasRange_iff

/-- An expression that evaluates to an integer is an index of any array that a name is bound to: in
brackets behind the name, it gives the element at the integer if the array has it, and else fails
for an index out of bounds, with the integer and the length of the array. The advice with this
failure is the range of the indices that the array has, but for an array without elements. A limit
above that of the index is always enough. -/
theorem evaluate_indexed (hname : Lexeme.identifier? name.toList = some (name.toList, []))
    (htrue : name ≠ "true") (hfalse : name ≠ "false")
    (harray : env.get? name = some (.array items))
    (hindex : evaluate index env limit = .ok (.integer i)) :
    (∀ limit', limit < limit' →
      ∃ nesting, Nesting.deepest limit' (indexed name index).toList = .ok nesting) ∧
    ∀ limit' nesting, Nesting.deepest limit' (indexed name index).toList = .ok nesting →
      (0 ≤ i.toInt ∧ i.toInt < items.size → ∃ v, items.values[i.toInt.toNat]? = some v ∧
        evaluate (indexed name index) env limit' = .ok v) ∧
      (¬(0 ≤ i.toInt ∧ i.toInt < items.size) → ∃ failure span,
        evaluate (indexed name index) env limit' = .error failure ∧
        failure = .evaluation ⟨.indexOutOfBounds i items.size, span⟩ (indexed name index) ∧
        (∃ low high, failure.diagnostic.help = some (validIndices low high)) ∧
        ∀ low high, failure.diagnostic.help = some (validIndices low high) →
          (items.HasRange low high ↔ items.size ≠ 0)) := by
  constructor
  · intro limit' hlimit
    obtain ⟨t, tree, ht, -, -⟩ := exists_of_evaluate_eq_ok hindex
    have hfits := Nesting.exists_deepest_eq_ok_iff.mp (SyntaxTree.exists_deepest_of_parse ht)
    rw [Nesting.exists_deepest_eq_ok_iff, toList_indexed]
    exact Nesting.fits_indexed hname hfits hlimit
  · intro limit' nesting hnesting
    rw [← env.get?_withTruthValues htrue hfalse] at harray
    obtain ⟨span, hresult⟩ := evaluate_element hname harray hindex hnesting
    constructor
    · intro hbounds
      obtain ⟨v, hv⟩ := Option.isSome_iff_exists.mp (Sequence.isSome_get?_iff.mpr hbounds)
      rw [hv] at hresult
      exact ⟨v, (Sequence.get?_eq hbounds.1).symm.trans hv, hresult⟩
    · intro hbounds
      have hnone : items.get? i = none := by
        rw [← Option.not_isSome_iff_eq_none, Sequence.isSome_get?_iff]
        exact hbounds
      rw [hnone] at hresult
      obtain ⟨hexists, hrange⟩ := help_indexOutOfBounds items i
      exact ⟨_, span, hresult, rfl, hexists, hrange⟩

/-- An array of two integers. -/
private def pair : Sequence := .integers #[7, 8]

private theorem evaluate_difference_of_numbers :
    evaluate "1 - 2" (.ofList [("a", .array pair)]) 0 = .ok (.integer (-1)) := by
  have hcheck : (evaluate "1 - 2" (.ofList [("a", .array pair)]) 0).toOption =
      some (.integer (-1)) := by decide +kernel
  cases h : evaluate "1 - 2" (.ofList [("a", .array pair)]) 0 with
  | error failure =>
    rw [h] at hcheck
    cases hcheck
  | ok v =>
    rw [h] at hcheck
    rw [Option.some.inj hcheck]

/-- Below zero there is no index, and the advice is to take one of those that there are. -/
theorem evaluate_indexed_below_zero :
    Lexeme.identifier? "a".toList = some ("a".toList, []) ∧ "a" ≠ "true" ∧ "a" ≠ "false" ∧
      (Environment.ofList [("a", .array pair)]).get? "a" = some (.array pair) ∧
      evaluate "1 - 2" (.ofList [("a", .array pair)]) 0 = .ok (.integer (-1)) ∧
      ∃ failure span,
        evaluate (indexed "a" "1 - 2") (.ofList [("a", .array pair)]) 1 = .error failure ∧
        failure = .evaluation ⟨.indexOutOfBounds (-1) 2, span⟩ (indexed "a" "1 - 2") ∧
        ∃ low high, failure.diagnostic.help = some (validIndices low high) ∧
          pair.HasRange low high := by
  have hname : Lexeme.identifier? "a".toList = some ("a".toList, []) := rfl
  have htrue : "a" ≠ "true" := by decide
  have hfalse : "a" ≠ "false" := by decide
  have harray : (Environment.ofList [("a", .array pair)]).get? "a" = some (.array pair) := rfl
  obtain ⟨hlimits, hresult⟩ :=
    evaluate_indexed hname htrue hfalse harray evaluate_difference_of_numbers
  obtain ⟨nesting, hnesting⟩ := hlimits 1 Nat.one_pos
  obtain ⟨failure, span, hfailure, hcause, ⟨low, high, hhelp⟩, hrange⟩ :=
    (hresult 1 nesting hnesting).2 (by decide)
  refine ⟨hname, htrue, hfalse, harray, evaluate_difference_of_numbers, failure, span, hfailure,
    hcause, low, high, hhelp, (hrange low high hhelp).mpr (by decide)⟩

/-- The advice about an array without elements is to take its first one. -/
theorem not_hasRange_of_empty :
    ¬∀ (index : String) (env : Environment) (items : Sequence) (i : Int64) (limit : Nat)
      (failure : Failure) (span : Span) (low high : Int),
      env.get? "a" = some (.array items) → evaluate index env limit = .ok (.integer i) →
      evaluate (indexed "a" index) env (limit + 1) = .error failure →
      failure = .evaluation ⟨.indexOutOfBounds i items.size, span⟩ (indexed "a" index) →
      failure.diagnostic.help = some (validIndices low high) → items.HasRange low high := by
  intro hall
  let items : Sequence := .integers #[]
  let env : Environment := .ofList [("a", .array items)]
  have hindex : evaluate "0" env 0 = .ok (.integer 0) := by
    have hnumber : Lexeme.IsNumber ['0'] := Lexeme.isNumber_decimalDigits 0
    exact evaluate_number hnumber rfl rfl
  have hnesting : Nesting.deepest 1 (indexed "a" "0").toList = .ok 1 := rfl
  have harray : env.get? "a" = some (.array items) := rfl
  have hitems : env.withTruthValues.get? "a" = some (.array items) := rfl
  obtain ⟨span, hresult⟩ := evaluate_element rfl hitems hindex hnesting
  obtain ⟨⟨low, high, hhelp⟩, hrange⟩ := help_indexOutOfBounds items 0
  have hhas := hall "0" env items 0 0 _ span low high harray hindex hresult rfl hhelp
  exact (hrange low high hhelp).mp hhas rfl

end Source

end Reckon
