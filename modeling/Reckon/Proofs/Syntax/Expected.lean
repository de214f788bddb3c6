import Reckon.Proofs.Grammar.Continuation
import Reckon.Proofs.Syntax.Acceptance

/-!
What a message says was expected, against what can really follow. Where a scan
waits for an operand a message names an expression only. Behind an operand it
names an operator, the end of the innermost bracket or of the text, and an
index behind a bare name, and all these can follow; but it names an expression
too, which cannot, because a tier of one symbol fails as the symbol.
-/

namespace Reckon

open Grammar

namespace Expectation

/-- A text by which something expected may follow. -/
def sample : Expectation → List Char
  | number => [' ', '1']
  | identifier => [' ', 'a']
  | openParen => [' ', '(']
  | closeParen => [')']
  | openBracket => ['[']
  | closeBracket => [']']
  | endOfInput => []
  | operator => [' ', '*', ' ', '1']
  | expression => [' ', '1']

/-- What is expected can follow a text: with it and some more the text is accepted, or at once
where the end is expected. -/
def CanFollow (pre : List Char) : Expectation → Prop
  | endOfInput => Accepts pre
  | x => ∃ more, Accepts (pre ++ (x.sample ++ more))

/-- What a message on a whole text can say was expected. -/
def listed : List Expectation :=
  [expression, operator, endOfInput, closeParen, closeBracket, openBracket]

theorem mem_all (r : Rule) : r ∈ Rule.all := by
  cases r with
  | tier t => cases t <;> decide
  | repetition t => cases t <;> decide
  | tierOperator t => cases t <;> decide
  | symbol s => cases s <;> decide
  | _ => decide

/-- A message lists what the rules on record stand for. -/
theorem mem_ofRules_filter {failed : List Rule} {x : Expectation} :
    x ∈ ofRules (Rule.all.filter fun r => failed.contains r) ↔ x ∈ failed.map ofRule := by
  simp [ofRules, mem_all]

theorem map_failedBehind (last : Option Rule) : (failedBehind last Tier.all).map ofRule =
    (if last = some .identifier then [openBracket] else []) ++
      [operator, operator, operator, expression, expression, expression] := by
  unfold failedBehind
  split <;> rfl

/-- Behind an operand a message lists an index, if it is a name, an operator, an expression, and
what ends the innermost bracket or the text. -/
theorem mem_failures_iff (last : Option Rule) (opened : List Bracket) (x : Expectation) :
    x ∈ (failedBehind last Tier.all ++ [endingRule opened]).map ofRule ↔
      x = openBracket ∧ last = some .identifier ∨ x = operator ∨ x = expression ∨
        x = ofRule (endingRule opened) := by
  rw [List.map_append, map_failedBehind]
  by_cases hlast : last = some .identifier <;> simp [hlast]

theorem ending_subset_listed : [endOfInput, closeParen, closeBracket] ⊆ listed := by decide

/-- What ends a bracket or the text is neither an operand nor an operator. -/
theorem ofRule_endingRule (opened : List Bracket) :
    ofRule (endingRule opened) ∈ [endOfInput, closeParen, closeBracket] := by
  cases opened with
  | nil => simp [endingRule, ofRule]
  | cons bracket _ => cases bracket <;> simp [endingRule, Bracket.closingRule, ofRule]

section follow

variable {source pre : List Char} {tokens : List Token} {opened : List Bracket} {d : Cursor}
  {x : Expectation}

/-- Where an operand is missing, nothing listed but an expression can follow. -/
theorem canFollow_iff_of_operand (h : Reaches (.start source) tokens ⟨.operand, opened, d⟩)
    (hsource : source = pre ++ d.skipLayout.rest) (hx : x ∈ listed) :
    x.CanFollow pre ↔ x = expression := by
  have hrejects : ∀ tail : List Char,
      (∀ a ∈ tail.head?, isLayout a = true ∨ a ∈ [')', ']', '[']) →
      (∀ a ∈ (tail.dropWhile isLayout).head?, a ∈ ['*', ')', ']', '[']) → ¬ Accepts (pre ++ tail) :=
    fun _ => h.not_accepts_of_head hsource
  simp only [listed, List.mem_cons, List.not_mem_nil, or_false] at hx
  rcases hx with rfl | rfl | rfl | rfl | rfl | rfl
  · exact iff_of_true (h.exists_accepts_number hsource) rfl
  · refine iff_of_false ?_ (by decide)
    rintro ⟨more, hmore⟩
    exact hrejects _ (by simp [sample, isLayout]) (by simp [sample, isLayout]) hmore
  · refine iff_of_false ?_ (by decide)
    intro haccepts
    exact hrejects [] (by simp) (by simp) (by rwa [List.append_nil])
  all_goals
    refine iff_of_false ?_ (by decide)
    rintro ⟨more, hmore⟩
    exact hrejects _ (by simp [sample]) (by simp [sample, isLayout]) hmore

/-- Behind an operand just what is listed can follow, but no expression. -/
theorem canFollow_iff_of_operator (h : Reaches (.start source) tokens ⟨.operator, opened, d⟩)
    (hsource : source = pre ++ d.skipLayout.rest) (hx : x ∈ listed) :
    x.CanFollow pre ↔ x = openBracket ∧ lastRule? tokens = some .identifier ∨ x = operator ∨
      x = ofRule (endingRule opened) := by
  have hending : ∀ bracket : Bracket,
      ofRule bracket.closingRule = ofRule (endingRule opened) ↔ opened.head? = some bracket := by
    intro bracket
    cases opened with
    | nil => cases bracket <;> simp [endingRule, Bracket.closingRule, ofRule]
    | cons next outer =>
      cases bracket <;> cases next <;> simp [endingRule, Bracket.closingRule, ofRule]
  have hclosing := fun bracket =>
    (h.exists_accepts_closing_iff hsource bracket).trans (hending bracket).symm
  have hother : ∀ {y : Expectation}, y ∉ [endOfInput, closeParen, closeBracket] →
      y ≠ ofRule (endingRule opened) := fun hy heq => hy (heq ▸ ofRule_endingRule opened)
  simp only [listed, List.mem_cons, List.not_mem_nil, or_false] at hx
  rcases hx with rfl | rfl | rfl | rfl | rfl | rfl
  · have hnone := h.not_accepts_number hsource
    simpa [CanFollow, sample, hother] using hnone
  · exact iff_of_true (h.exists_accepts_product hsource) (.inr (.inl rfl))
  · have hend : endOfInput = ofRule (endingRule opened) ↔ opened = [] := by
      cases opened with
      | nil => simp [endingRule, ofRule]
      | cons bracket _ => cases bracket <;> simp [endingRule, Bracket.closingRule, ofRule]
    simpa [CanFollow, hend] using h.accepts_pre_iff hsource
  · simpa [CanFollow, sample, Bracket.closing, Bracket.closingRule, ofRule] using hclosing .paren
  · simpa [CanFollow, sample, Bracket.closing, Bracket.closingRule, ofRule] using hclosing .square
  · simpa [CanFollow, sample, hother] using h.exists_accepts_indexed_iff hsource

end follow

end Expectation

namespace SyntaxTree

open Expectation

variable {source : String} {limit : Nat} {expected : List Expectation} {found : Found} {span : Span}

/-- What a failed reading lists, and what can follow the text before its place. -/
theorem listed_of_parse (h : parse source limit = .error ⟨.unexpected expected found, span⟩) :
    ∃ pre, Text.takeBytes? source.toList span.start = some pre ∧ span.stop = span.start ∧
      (expected = [.expression] ∧ (∀ x ∈ listed, x.CanFollow pre ↔ x = .expression) ∨
        (∀ x, x ∈ expected → x ∈ listed) ∧ .operator ∈ expected ∧ .expression ∈ expected ∧
          ∀ x ∈ listed, x.CanFollow pre ↔ x ∈ expected ∧ x ≠ .expression) := by
  cases hnesting : Nesting.deepest limit source.toList with
  | error excess => simp [parse, hnesting, SyntaxError.ofExcess] at h
  | ok nesting =>
    rcases parse_or_sticks hnesting with ⟨t, tree, ht, -⟩ | ⟨found', place, failed, hparse, hsticks⟩
    · rw [ht] at h
      cases h
    rw [hparse] at h
    simp only [Except.error.injEq, SyntaxError.mk.injEq, SyntaxCause.unexpected.injEq] at h
    obtain ⟨⟨rfl, rfl⟩, rfl⟩ := h
    cases hsticks with
    | operand hreaches _ =>
      obtain ⟨pre, hsource, htake⟩ := hreaches.exists_pre
      exact ⟨pre, htake, rfl, .inl ⟨rfl, fun x => canFollow_iff_of_operand hreaches hsource⟩⟩
    | @operator tokens opened c hreaches _ _ _ =>
      obtain ⟨pre, hsource, htake⟩ := hreaches.exists_pre
      have hmem := fun x => mem_ofRules_filter.trans (mem_failures_iff (lastRule? tokens) opened x)
      refine ⟨pre, htake, rfl, .inr ⟨?_, ?_, ?_, ?_⟩⟩
      · intro x hx
        rcases (hmem x).mp hx with ⟨rfl, -⟩ | rfl | rfl | rfl
        · decide
        · decide
        · decide
        · exact ending_subset_listed (ofRule_endingRule opened)
      · exact (hmem _).mpr (.inr (.inl rfl))
      · exact (hmem _).mpr (.inr (.inr (.inl rfl)))
      · intro x hx
        have hending : .expression ≠ Expectation.ofRule (endingRule opened) := fun heq =>
          absurd (heq ▸ ofRule_endingRule opened) (by decide)
        rw [canFollow_iff_of_operator hreaches hsource hx, hmem]
        by_cases hexpression : x = .expression
        · simp [hexpression, hending]
        · simp [hexpression]

/-- A message lists an operator, the end of the text, a closing bracket and an index just when they
can follow the text before its place. It always lists an expression, which can follow just when
nothing else is listed. -/
theorem mem_expected_iff_canFollow
    (h : parse source limit = .error ⟨.unexpected expected found, span⟩) :
    ∃ pre, Text.takeBytes? source.toList span.start = some pre ∧ span.stop = span.start ∧
      (∀ x ∈ expected, x ∈ listed) ∧
      (∀ x ∈ listed, x ≠ .expression → (x ∈ expected ↔ x.CanFollow pre)) ∧
      .expression ∈ expected ∧
      (Expectation.expression.CanFollow pre ↔ expected = [.expression]) := by
  obtain ⟨pre, htake, hspan, ⟨rfl, hfollow⟩ | ⟨hlisted, hoperator, hexpression, hfollow⟩⟩ :=
    listed_of_parse h
  · refine ⟨pre, htake, hspan, by decide, fun x hx hne => ?_, List.mem_singleton_self _, ?_⟩
    · rw [hfollow x hx, List.mem_singleton]
    · exact iff_of_true ((hfollow .expression (by decide)).mpr rfl) rfl
  · refine ⟨pre, htake, hspan, hlisted, fun x hx hne => ?_, hexpression, ?_⟩
    · rw [hfollow x hx, and_iff_left hne]
    · refine iff_of_false (fun hcan => ((hfollow .expression (by decide)).mp hcan).2 rfl) ?_
      rintro rfl
      exact absurd hoperator (by decide)

private theorem parse_closing : parse "1 )" 0 =
    .error ⟨.unexpected [.endOfInput, .operator, .expression] (.character ')'), ⟨2, 2⟩⟩ := by
  have hcheck : (match parse "1 )" 0 with
      | .error failure => decide (failure =
        ⟨.unexpected [.endOfInput, .operator, .expression] (.character ')'), ⟨2, 2⟩⟩)
      | .ok _ => false) = true := by decide +kernel
  cases h : parse "1 )" 0 with
  | ok t =>
    rw [h] at hcheck
    cases hcheck
  | error failure =>
    rw [h] at hcheck
    rw [of_decide_eq_true hcheck]

/-- Behind a number an operator can follow, and no bracket that closes. -/
theorem operator_canFollow_number : Expectation.operator.CanFollow "1 ".toList ∧
    ¬ Expectation.closeParen.CanFollow "1 ".toList := by
  obtain ⟨pre, htake, -, -, hfollow, -⟩ := mem_expected_iff_canFollow parse_closing
  have htext : Text.takeBytes? "1 )".toList 2 = some "1 ".toList := by rfl
  obtain rfl := Option.some.inj (htake.symm.trans htext)
  exact ⟨(hfollow .operator (by decide) (by decide)).mp (by decide),
    mt (hfollow .closeParen (by decide) (by decide)).mpr (by decide)⟩

/-- Behind a number the message lists an expression, which cannot follow. -/
theorem expression_expected_behind_number : ∃ expected found,
    parse "1 )" 0 = .error ⟨.unexpected expected found, ⟨2, 2⟩⟩ ∧
      Text.takeBytes? "1 )".toList 2 = some "1 ".toList ∧
      ¬ (.expression ∈ expected ↔ Expectation.expression.CanFollow "1 ".toList) := by
  refine ⟨_, _, parse_closing, by rfl, fun hlisted_iff_follows => ?_⟩
  obtain ⟨pre, htake, -, ⟨hexpected, -⟩ | ⟨-, -, hexpression, hfollow⟩⟩ :=
    listed_of_parse parse_closing
  · cases hexpected
  · have htext : Text.takeBytes? "1 )".toList 2 = some "1 ".toList := by rfl
    obtain rfl := Option.some.inj (htake.symm.trans htext)
    exact ((hfollow .expression (by decide)).mp (hlisted_iff_follows.mp hexpression)).2 rfl

end SyntaxTree

end Reckon
