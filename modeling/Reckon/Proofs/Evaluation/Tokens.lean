import Reckon.Proofs.Evaluation.Trees
import Reckon.Proofs.Syntax.Outline
import Reckon.Proofs.Syntax.Tokens
import Reckon.Source

/-!
What the tokens of a text determine: its tree but for the spans, the outline of
the tree, its nesting, and its value or the cause of its failure. Layout
between tokens makes no difference.
-/

namespace Reckon

open Grammar

/-- A failure without the place that it belongs to. -/
def Failure.bare : Failure → Failure
  | unsupportedLanguage name => unsupportedLanguage name
  | parse error _ => parse ⟨error.cause, ⟨0, 0⟩⟩ ""
  | evaluation error _ => evaluation ⟨error.cause, ⟨0, 0⟩⟩ ""

namespace SyntaxTree

variable {t t' : SyntaxTree} {tree tree' : ParseTree} {source source' : String} {limit : Nat}

/-- The grammar accepts the texts that are read within some limit. -/
theorem exists_run_iff (source : String) :
    (∃ trees, Grammar.run .main source.toList = .ok trees) ↔
      ∃ limit t, parse source limit = .ok t := by
  constructor
  · rintro ⟨trees, htrees⟩
    obtain ⟨nesting, hnesting⟩ := Nesting.exists_deepest_eq_ok (le_refl source.toList.length)
    rcases parse_cases hnesting with ⟨t, tree, ht, -⟩ | ⟨_, _, place, -, hstuck⟩
    · exact ⟨_, t, ht⟩
    · rcases run_main source.toList with ⟨_, _, -, -, -, hscan⟩ | ⟨_, _, hrun, -⟩
      · rw [hscan] at hstuck
        cases hstuck
      · rw [hrun] at htrees
        cases htrees
  · rintro ⟨limit, t, ht⟩
    cases hrun : Grammar.run .main source.toList with
    | ok trees => exact ⟨trees, rfl⟩
    | error mismatch =>
      obtain ⟨nesting, hnesting⟩ := exists_deepest_of_parse ht
      simp [parse, hnesting, hrun] at ht

namespace IsOf

/-- Trees whose tokens say the same are the same but for the spans. -/
theorem bare_eq (h : t.IsOf tree source) (h' : t'.IsOf tree' source')
    (htexts : tree.texts = tree'.texts) : tree.bare = tree'.bare := by
  obtain ⟨stop, hderives, -⟩ := h.derives
  obtain ⟨stop', hderives', -⟩ := h'.derives
  exact hderives.bare_eq hderives' htexts

theorem display_eq_iff (h : t.IsOf tree source) (h' : t'.IsOf tree' source') :
    t.display = t'.display ↔ tree.texts = tree'.texts := by
  constructor
  · intro hdisplay
    have hread : ∀ {t : SyntaxTree} {tree : ParseTree} {source : String}, t.IsOf tree source →
        Text.quotations none t.display.toList = tree.texts.map String.toList := by
      intro t tree source h
      obtain ⟨d, hreaches, -⟩ := h.readsThrough
      have hquotations := tree.quotations_lines 0 hreaches.laid.solid []
      rw [List.append_nil] at hquotations
      rw [h.display_eq, hquotations, Text.quotations, List.append_nil]
    have htexts := hread h
    rw [hdisplay, hread h'] at htexts
    exact (List.map_injective_iff.mpr (fun _ _ => String.toList_injective) htexts).symm
  · intro htexts
    rw [← String.toList_inj, h.display_eq, h'.display_eq, ← tree.lines_bare, ← tree'.lines_bare,
      h.bare_eq h' htexts]

/-- Trees whose tokens say the same have the same value, or fail for the same cause. -/
theorem evaluateTree_eq (h : t.IsOf tree source) (h' : t'.IsOf tree' source')
    (htexts : tree.texts = tree'.texts) (env : Environment) :
    (Source.evaluateTree t env).mapError Failure.bare =
      (Source.evaluateTree t' env).mapError Failure.bare := by
  have hbare : tree.unfolded.bare = tree'.unfolded.bare := by
    rw [← tree.unfolded_bare, ← tree'.unfolded_bare, h.bare_eq h' htexts]
  have hcause := Unfolded.evaluate_congr env hbare
  have hresult : ∀ t : SyntaxTree, (Source.evaluateTree t env).mapError Failure.bare =
      ((Evaluation.evaluate t env).mapError EvaluationError.cause).mapError
        fun cause => Failure.evaluation ⟨cause, ⟨0, 0⟩⟩ "" := by
    intro t
    unfold Source.evaluateTree
    cases Evaluation.evaluate t env <;> rfl
  rw [hresult t, hresult t', h.evaluate_eq, h'.evaluate_eq, hcause]

end IsOf

end SyntaxTree

namespace Source

variable {source source' : String}

/-- Texts that are scanned through to the same tokens have the same value, or fail for the same
cause, whatever the limit. -/
theorem evaluate_eq_of_readsThrough {tokens tokens' : List Token}
    (h : ReadsThrough source.toList tokens) (h' : ReadsThrough source'.toList tokens')
    (htokens : lexemesOf tokens = lexemesOf tokens') (env : Environment) (limit : Nat) :
    (evaluate source env limit).mapError Failure.bare =
      (evaluate source' env limit).mapError Failure.bare := by
  have hdeepest := h.deepest_eq h' htokens limit
  cases hnesting : Nesting.deepest limit source.toList with
  | error excess =>
    cases hnesting' : Nesting.deepest limit source'.toList with
    | ok nesting => simp [hnesting, hnesting', Except.mapError] at hdeepest
    | error excess' =>
      simp only [hnesting, hnesting', Except.mapError, Except.error.injEq, Prod.mk.injEq]
        at hdeepest
      simp only [evaluate, parse, SyntaxTree.parse, hnesting, hnesting', Except.mapError,
        Failure.bare, SyntaxError.ofExcess, hdeepest]
  | ok nesting =>
    cases hnesting' : Nesting.deepest limit source'.toList with
    | error excess => simp [hnesting, hnesting', Except.mapError] at hdeepest
    | ok nesting' =>
      obtain ⟨t, tree, ht, hof, htexts⟩ := SyntaxTree.parse_of_readsThrough h hnesting
      obtain ⟨t', tree', ht', hof', htexts'⟩ := SyntaxTree.parse_of_readsThrough h' hnesting'
      have heq := hof.evaluateTree_eq hof' (by rw [htexts, htexts', htokens]) env
      simpa only [evaluate, parse, ht, ht'] using heq

/-- The grammar accepts just what some limit lets be read. Layout at the ends of such a text or of
one of its tokens leaves it readable within the same limits, with the same tokens. Trees that
were read show alike just when their tokens say the same, and then the two texts have the same
value in every environment within every limit, or fail for the same cause. -/
theorem tokens_determine :
    (∀ source : String, (∃ trees, Grammar.run .main source.toList = .ok trees) ↔
      ∃ limit t, SyntaxTree.parse source limit = .ok t) ∧
    (∀ (source : String) (limit : Nat) (t : SyntaxTree), SyntaxTree.parse source limit = .ok t →
      ∀ pre gap post : List Char, source.toList = pre ++ post →
        (∀ a ∈ gap, isLayout a = true) →
        (pre = [] ∨ post = [] ∨ ∃ token ∈ t.tokens,
          Text.byteLength pre = token.1.start ∨ Text.byteLength pre = token.1.stop) →
        ∃ t', SyntaxTree.parse (String.ofList (pre ++ (gap ++ post))) limit = .ok t' ∧
          t'.texts = t.texts) ∧
    ∀ (source source' : String) (limit limit' : Nat) (t t' : SyntaxTree),
      SyntaxTree.parse source limit = .ok t → SyntaxTree.parse source' limit' = .ok t' →
        (t.display = t'.display ↔ t.texts = t'.texts) ∧
        (t.texts = t'.texts → ∀ (env : Environment) (limit'' : Nat),
          (evaluate source env limit'').mapError Failure.bare =
            (evaluate source' env limit'').mapError Failure.bare) := by
  refine ⟨SyntaxTree.exists_run_iff, ?_, ?_⟩
  · intro source limit t ht pre gap post hsource hgap hplace
    obtain ⟨tree, hof⟩ := SyntaxTree.isOf_of_parse ht
    obtain ⟨nesting, hnesting⟩ := SyntaxTree.exists_deepest_of_parse ht
    have hscan := hof.readsThrough
    have hplace' : pre = [] ∨ post = [] ∨ ∃ token ∈ tree.leaves,
        Text.byteLength pre = token.2.1.start ∨ Text.byteLength pre = token.2.1.stop := by
      refine hplace.imp_right (Or.imp_right ?_)
      rintro ⟨token, htoken, hat⟩
      rw [hof.tokens_eq, List.mem_map] at htoken
      obtain ⟨leaf, hleaf, rfl⟩ := htoken
      exact ⟨leaf, hleaf, hat⟩
    obtain ⟨tokens', hscan', htokens⟩ := hscan.insert hsource hgap hplace'
    rw [← String.toList_ofList (l := pre ++ (gap ++ post))] at hscan'
    have hdeepest := hscan'.deepest_eq hscan htokens limit
    cases hnesting' : Nesting.deepest limit (String.ofList (pre ++ (gap ++ post))).toList with
    | error excess =>
      rw [hnesting, hnesting'] at hdeepest
      cases hdeepest
    | ok nesting' =>
      obtain ⟨t', tree', ht', hof', htexts⟩ := SyntaxTree.parse_of_readsThrough hscan' hnesting'
      refine ⟨t', ht', ?_⟩
      rw [hof'.texts_eq, htexts, htokens, hof.texts_eq]
      rfl
  · intro source source' limit limit' t t' ht ht'
    obtain ⟨tree, hof⟩ := SyntaxTree.isOf_of_parse ht
    obtain ⟨tree', hof'⟩ := SyntaxTree.isOf_of_parse ht'
    rw [hof.texts_eq, hof'.texts_eq]
    exact ⟨hof.display_eq_iff hof', fun htexts env limit'' =>
      evaluate_eq_of_readsThrough hof.readsThrough hof'.readsThrough htexts env limit''⟩

/-- A tab before the sign of a difference, and a line end at the end, change nothing. -/
theorem evaluate_spaced_difference :
    ∃ t t' t'', SyntaxTree.parse "a-1" 0 = .ok t ∧ SyntaxTree.parse "a\t-1" 0 = .ok t' ∧
      SyntaxTree.parse "a-1\n" 0 = .ok t'' ∧ t'.texts = t.texts ∧ t''.display = t.display ∧
        ∀ (env : Environment) (limit : Nat),
          (evaluate "a\t-1" env limit).mapError Failure.bare =
            (evaluate "a-1" env limit).mapError Failure.bare := by
  have hcheck : (SyntaxTree.parse "a-1" 0).toOption.any
      (fun t => t.tokens.any fun token => token.1.start = 1) = true := by decide +kernel
  cases ht : SyntaxTree.parse "a-1" 0 with
  | error error =>
    rw [ht] at hcheck
    cases hcheck
  | ok t =>
    rw [ht] at hcheck
    obtain ⟨token, htoken, hstart⟩ := List.any_eq_true.mp hcheck
    have hplace : Text.byteLength ['a'] = token.1.start := (of_decide_eq_true hstart).symm
    obtain ⟨t', ht', htexts⟩ := tokens_determine.2.1 "a-1" 0 t ht ['a'] ['\t'] ['-', '1'] rfl
      (List.forall_mem_singleton.mpr rfl) (.inr (.inr ⟨token, htoken, .inl hplace⟩))
    obtain ⟨t'', ht'', htexts'⟩ := tokens_determine.2.1 "a-1" 0 t ht ['a', '-', '1'] ['\n'] [] rfl
      (List.forall_mem_singleton.mpr rfl) (.inr (.inl rfl))
    exact ⟨t, t', t'', rfl, ht', ht'', htexts,
      (tokens_determine.2.2 _ _ 0 0 t'' t ht'' ht).1.mpr htexts',
      (tokens_determine.2.2 _ _ 0 0 t' t ht' ht).2 htexts⟩

end Source

end Reckon
