import Reckon.Proofs.Grammar.Failures

/-!
Matchers one at a time. What a matcher of a token, a sequence or a choice gives
back is said by equations, and so are the rules that it leaves on record where
it fails. A tier finds one of its own symbols exactly where the scan finds it.
-/

namespace Reckon.Grammar

variable {c m stop : Cursor} {f f' f'' : Furthest} {r : Rule} {rules : List Rule}

theorem token_eq_some {lexeme? : List Char → Option (List Char × List Char)}
    {lexeme rest : List Char} (h : lexeme? c.rest = some (lexeme, rest)) :
    token r lexeme? c f = (some ([c.leaf r lexeme rest], c.after lexeme rest), f) := by
  simp only [token, h, Cursor.leaf]

theorem token_eq_none {lexeme? : List Char → Option (List Char × List Char)}
    (h : lexeme? c.rest = none) : token r lexeme? c f = (none, f.push c.offset [r]) := by
  simp only [token, h, f.record_count]

theorem rule_eq_some {body : Matcher} {trees : List ParseTree}
    (h : body c f = (some (trees, stop), f')) :
    rule r body c f = (some ([c.branch stop r trees], stop), f') := by
  simp only [rule, h, Cursor.branch]

theorem rule_eq_none_single {body : Matcher} {a : Rule}
    (h : body c f = (none, f.push c.offset [a])) :
    rule r body c f = (none, f.push c.offset [a]) := by
  simp only [rule, h, f.record_single]

theorem rule_eq_none_several {body : Matcher} (h : body c f = (none, f.push c.offset rules))
    (hrules : rules.length ≠ 1) : rule r body c f = (none, f.push c.offset [r]) := by
  simp only [rule, h, f.record_several r c.offset hrules]

theorem rule_eq_none_behind {body : Matcher} {place : Nat}
    (h : body c f = (none, f'.push place rules)) (hplace : c.offset < place) :
    rule r body c f = (none, f'.push place rules) := by
  simp only [rule, h, f'.record_behind rules r _ hplace]

theorem andThen_eq_some {first second : Matcher} {trees more : List ParseTree}
    (h : first c f = (some (trees, m), f'))
    (h' : second m.skipLayout f' = (some (more, stop), f'')) :
    andThen first second c f = (some (trees ++ more, stop), f'') := by
  simp only [andThen, h, h']

theorem andThen_eq_none_left {first second : Matcher} (h : first c f = (none, f')) :
    andThen first second c f = (none, f') := by
  simp only [andThen, h]

theorem andThen_eq_none_right {first second : Matcher} {trees : List ParseTree}
    (h : first c f = (some (trees, m), f')) (h' : second m.skipLayout f' = (none, f'')) :
    andThen first second c f = (none, f'') := by
  simp only [andThen, h, h']

theorem orElse_eq_left {first second : Matcher} {found : List ParseTree × Cursor}
    (h : first c f = (some found, f')) : orElse first second c f = (some found, f') := by
  simp only [orElse, h]

theorem orElse_eq_right {first second : Matcher} (h : first c f = (none, f')) :
    orElse first second c f = second c f' := by
  simp only [orElse, h]

theorem endOfInput_eq_some (h : c.rest = []) :
    endOfInput c f = (some ([c.leaf .endOfInput [] []], c), f) := by
  obtain ⟨rest, offset⟩ := c
  obtain rfl : rest = [] := h
  rfl

theorem endOfInput_eq_none (h : c.rest ≠ []) :
    endOfInput c f = (none, f.push c.offset [.endOfInput]) :=
  token_eq_none (by simp only [Lexeme.endOfInput?, if_neg h])

/-- The first of some symbols that a text starts with and what follows it. -/
def firstOf? (ss : List Symbol) (text : List Char) : Option (Symbol × List Char) :=
  ss.findSome? fun s => (Lexeme.symbol? s text).map fun found => (s, found.2)

theorem eq_append_of_symbol? {s : Symbol} {text lexeme rest : List Char}
    (h : Lexeme.symbol? s text = some (lexeme, rest)) :
    lexeme = s.text ∧ text = s.text ++ rest := by
  unfold Lexeme.symbol? Lexeme.exactly? at h
  split at h
  · next found rest' hfound =>
    split at hfound
    · next hprefix =>
      cases hfound
      obtain ⟨after, rfl⟩ := List.isPrefixOf_iff_prefix.mp hprefix
      split at h
      · cases h
      · cases h
        exact ⟨rfl, by rw [List.drop_left]⟩
    · cases hfound
  · cases h

theorem symbols_eq_some (ss : List Symbol) {s : Symbol} {rest : List Char}
    (h : firstOf? ss c.rest = some (s, rest)) (f : Furthest) :
    ∃ f' rules, symbols ss c f =
        (some ([c.leaf (.symbol s) s.text rest], c.after s.text rest), f') ∧
      f.Leaves f' c.offset rules := by
  induction ss generalizing f with
  | nil => cases h
  | cons first ss ih =>
    simp only [firstOf?, List.findSome?_cons] at h
    cases hfirst : Lexeme.symbol? first c.rest with
    | some found =>
      obtain ⟨lexeme, after⟩ := found
      obtain ⟨rfl, -⟩ := eq_append_of_symbol? hfirst
      simp only [hfirst, Option.map_some, Option.some.injEq, Prod.mk.injEq] at h
      obtain ⟨rfl, rfl⟩ := h
      exact ⟨f, [], orElse_eq_left (token_eq_some hfirst), .refl f c.offset⟩
    | none =>
      simp only [hfirst, Option.map_none] at h
      obtain ⟨f', rules, hf', hleaves⟩ := ih h (f.push c.offset [.symbol first])
      exact ⟨f', _, (orElse_eq_right (token_eq_none hfirst)).trans hf',
        (Furthest.Leaves.push_self f c.offset _).trans hleaves⟩

theorem symbols_eq_none (first : Symbol) (ss : List Symbol)
    (h : firstOf? (first :: ss) c.rest = none) (f : Furthest) :
    symbols (first :: ss) c f = (none, f.push c.offset ((first :: ss).map .symbol)) := by
  induction ss generalizing first f with
  | nil =>
    have hfirst : Lexeme.symbol? first c.rest = none := by simpa [firstOf?] using h
    exact orElse_eq_right (token_eq_none hfirst)
  | cons second ss ih =>
    simp only [firstOf?, List.findSome?_cons] at h
    cases hfirst : Lexeme.symbol? first c.rest with
    | some found => simp [hfirst] at h
    | none =>
      simp only [hfirst, Option.map_none] at h
      have hmore := ih second (by simpa only [firstOf?, List.findSome?_cons] using h)
        (f.push c.offset [.symbol first])
      rw [Furthest.push_push] at hmore
      exact (orElse_eq_right (token_eq_none hfirst)).trans hmore

/-- The grammar finds the symbols before an operand that the scan finds. -/
theorem firstOf?_unary (text : List Char) : firstOf? Symbol.unary text = Symbol.unaryAt? text := by
  fun_cases Symbol.unaryAt? text <;>
    simp_all [firstOf?, Symbol.unary, Lexeme.symbol?, Lexeme.exactly?, Symbol.text,
      List.findSome?, List.cons_prefix_iff]

/-- A tier finds a symbol of its own where the scan finds it. -/
theorem firstOf?_symbols {t : Tier} {s : Symbol} {text rest : List Char} (hs : s ∈ t.symbols)
    (h : Symbol.binaryAt? text = some (s, rest)) : firstOf? t.symbols text = some (s, rest) := by
  unfold Symbol.binaryAt? at h
  split at h <;> cases h <;> cases t <;> simp only [Tier.symbols, List.mem_cons, reduceCtorEq,
    List.not_mem_nil, or_self, or_false, or_true] at hs
  all_goals simp_all [firstOf?, Tier.symbols, Lexeme.symbol?, Lexeme.exactly?, Symbol.text,
    List.findSome?, List.cons_prefix_iff, List.head?_eq_some_iff]

/-- Where a tier finds a symbol, the scan finds one of the tier. -/
theorem exists_binaryAt? {t : Tier} {s : Symbol} (hs : s ∈ t.symbols) {text : List Char}
    (h : (Lexeme.symbol? s text).isSome) :
    ∃ s' rest, Symbol.binaryAt? text = some (s', rest) ∧ s' ∈ t.symbols := by
  obtain ⟨⟨lexeme, rest⟩, hfound⟩ := Option.isSome_iff_exists.mp h
  obtain ⟨-, rfl⟩ := eq_append_of_symbol? hfound
  cases t with
  | logicalOr =>
    obtain rfl := List.mem_singleton.mp hs
    exact ⟨_, _, rfl, hs⟩
  | logicalAnd =>
    obtain rfl := List.mem_singleton.mp hs
    exact ⟨_, _, rfl, hs⟩
  | bitwiseAnd =>
    obtain rfl := List.mem_singleton.mp hs
    have hone : rest.head? ≠ some '&' := by
      intro hhead
      simp [Lexeme.symbol?, Lexeme.exactly?, Symbol.text, hhead] at hfound
    refine ⟨.bitwiseAnd, rest, ?_, hs⟩
    simp only [Symbol.text, List.cons_append, List.nil_append]
    unfold Symbol.binaryAt?
    split <;> simp_all
  | relational =>
    -- a comparison sign alone may turn out to be the beginning of a longer one
    simp only [Tier.symbols, List.mem_cons, List.not_mem_nil, or_false] at hs
    rcases hs with rfl | rfl | rfl | rfl <;>
      simp only [Symbol.text, List.cons_append, List.nil_append] <;>
      unfold Symbol.binaryAt? <;> split <;> simp_all [Tier.symbols]
  | additive =>
    simp only [Tier.symbols, List.mem_cons, List.not_mem_nil, or_false] at hs
    rcases hs with rfl | rfl <;> exact ⟨_, _, rfl, by decide⟩
  | multiplicative =>
    simp only [Tier.symbols, List.mem_cons, List.not_mem_nil, or_false] at hs
    rcases hs with rfl | rfl <;> exact ⟨_, _, rfl, by decide⟩

theorem firstOf?_eq_none {t : Tier} {text : List Char}
    (h : ∀ s rest, Symbol.binaryAt? text = some (s, rest) → s ∉ t.symbols) :
    firstOf? t.symbols text = none := by
  simp only [firstOf?, List.findSome?_eq_none_iff, Option.map_eq_none_iff]
  intro s hs
  by_contra hfound
  obtain ⟨s', rest, hbinary, hs'⟩ :=
    exists_binaryAt? hs (Option.isSome_iff_ne_none.mpr hfound)
  exact h s' rest hbinary hs'

theorem unaryOperator_eq_some {s : Symbol} {rest : List Char}
    (h : Symbol.unaryAt? c.rest = some (s, rest)) (f : Furthest) :
    ∃ f' rules, unaryOperator c f = (some ([c.branch (c.after s.text rest) .unaryOperator
        [c.leaf (.symbol s) s.text rest]], c.after s.text rest), f') ∧
      f.Leaves f' c.offset rules := by
  obtain ⟨f', rules, hf', hleaves⟩ :=
    symbols_eq_some Symbol.unary ((firstOf?_unary c.rest).trans h) f
  exact ⟨f', rules, rule_eq_some hf', hleaves⟩

theorem unaryOperator_eq_none (h : Symbol.unaryAt? c.rest = none) (f : Furthest) :
    unaryOperator c f = (none, f.push c.offset [.unaryOperator]) :=
  rule_eq_none_several (symbols_eq_none _ _ ((firstOf?_unary c.rest).trans h) f) (by decide)

theorem tierOperator_eq_some {t : Tier} {s : Symbol} {rest : List Char} (hs : s ∈ t.symbols)
    (h : Symbol.binaryAt? c.rest = some (s, rest)) (f : Furthest) :
    ∃ f' rules, tierOperator t c f = (some ([c.branch (c.after s.text rest) (.tierOperator t)
        [c.leaf (.symbol s) s.text rest]], c.after s.text rest), f') ∧
      f.Leaves f' c.offset rules := by
  obtain ⟨f', rules, hf', hleaves⟩ := symbols_eq_some t.symbols (firstOf?_symbols hs h) f
  exact ⟨f', rules, rule_eq_some hf', hleaves⟩

theorem tierOperator_eq_none {t : Tier}
    (h : ∀ s rest, Symbol.binaryAt? c.rest = some (s, rest) → s ∉ t.symbols) (f : Furthest) :
    tierOperator t c f = (none, f.push c.offset [t.failure]) := by
  have hnone := firstOf?_eq_none h
  cases t with
  | logicalOr => exact rule_eq_none_single (symbols_eq_none _ _ hnone f)
  | logicalAnd => exact rule_eq_none_single (symbols_eq_none _ _ hnone f)
  | bitwiseAnd => exact rule_eq_none_single (symbols_eq_none _ _ hnone f)
  | relational => exact rule_eq_none_several (symbols_eq_none _ _ hnone f) (by decide)
  | additive => exact rule_eq_none_several (symbols_eq_none _ _ hnone f) (by decide)
  | multiplicative => exact rule_eq_none_several (symbols_eq_none _ _ hnone f) (by decide)

end Reckon.Grammar
