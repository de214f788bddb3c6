import Reckon.Proofs.Expression.Denotation
import Reckon.Source

/-!
The failures of a source text. A text that is read is a phrase for one
expression, and evaluation gives the meaning of that expression or fails where
it has none. The failures about malformed trees stay out of reach, whatever
the names in the environment and the values bound to them.
-/

namespace Reckon

open Grammar Evaluation

/-- Whether a source text can fail to be read with a cause: all but the one that is given in
words. -/
def SyntaxCause.isOrdinary : SyntaxCause → Bool
  | unexpected _ _ => true
  | tooDeep _ _ => true
  | other _ => false

/-- Whether a source text can have a failure. -/
def Failure.isOrdinary : Failure → Bool
  | unsupportedLanguage _ => false
  | parse error _ => error.cause.isOrdinary
  | evaluation error _ => error.cause.isOrdinary

/-- A tree that was read is a phrase for one expression, and its value in any environment is the
meaning of the expression. -/
theorem SyntaxTree.IsOf.exists_meaning {t : SyntaxTree} {tree : ParseTree} {source : String}
    (h : t.IsOf tree source) :
    ∃ e, Phrase (.tiers Tier.all) tree.texts e ∧
      ∀ env, Agrees (evaluate t env) (e.meaning env) := by
  obtain ⟨stop, hderives, -⟩ := h.derives
  obtain ⟨e, hphrase, hvalue⟩ := hderives.denotes
  refine ⟨e, by simpa using hphrase, ?_⟩
  intro env
  have hnumber : ParseTree.CountsNumbers t (underNumber t (.ofTree t)) := h.countsNumbers
  obtain ⟨id, hid, hagrees⟩ :=
    hvalue env.withTruthValues ⟨t.root, [], rfl, h.standsAt hnumber, rfl⟩
  obtain rfl := List.singleton_inj.mp hid
  rw [evaluate_eq, Expr.meaning]
  cases hmeaning : e.value? env.withTruthValues with
  | some v =>
    rw [hmeaning] at hagrees
    have hroot : recursive t env.withTruthValues _ t.root = .ok (some v) := hagrees
    rw [hroot]
    exact required_of_recursive hroot
  | none =>
    rw [hmeaning] at hagrees
    obtain ⟨failure, hfailure, hordinary⟩ := hagrees
    exact ⟨failure, by rw [hfailure], hordinary⟩

namespace Source

variable {source : String} {limit nesting : Nat}

/-- A text within the nesting limit is a phrase for one expression, whose meaning is its value, or
it is not read. -/
theorem evaluate_cases (h : Nesting.deepest limit source.toList = .ok nesting) :
    (∃ ts e, (Scanner.start source.toList).run = ⟨ts, none⟩ ∧ Phrase (.tiers Tier.all) ts e ∧
        ∀ env, (∀ v, e.meaning env = some v → evaluate source env limit = .ok v) ∧
          (e.meaning env = none → ∃ error, error.cause.isOrdinary = true ∧
            evaluate source env limit = .error (.evaluation error source))) ∨
      ∃ expected found place, (Scanner.start source.toList).run.stuckAt? = some place ∧
        ∀ env, evaluate source env limit =
          .error (.parse ⟨.unexpected expected found, ⟨place, place⟩⟩ source) := by
  rcases SyntaxTree.parse_cases h with ⟨t, tree, hparse, hof⟩ |
    ⟨expected, found, place, hparse, hstuck⟩
  · obtain ⟨e, hphrase, hmeaning⟩ := hof.exists_meaning
    refine .inl ⟨tree.texts, e, hof.scan_eq, hphrase, ?_⟩
    intro env
    have hagrees := hmeaning env
    constructor
    · intro v hv
      rw [hv] at hagrees
      have hvalue : Evaluation.evaluate t env = .ok v := hagrees
      simp only [evaluate, parse, hparse, evaluateTree, hvalue]
    · intro hnone
      rw [hnone] at hagrees
      obtain ⟨error, herror, hordinary⟩ := hagrees
      refine ⟨error, hordinary, ?_⟩
      simp only [evaluate, parse, hparse, evaluateTree, herror, hof.source_eq]
  · refine .inr ⟨expected, found, place, hstuck, ?_⟩
    intro env
    simp only [evaluate, parse, hparse]

/-- Evaluation of a text gives a value or fails for a reason that lies in the text and its
bindings; it never fails because a tree is malformed. -/
theorem evaluate_isOrdinary (source : String) (env : Environment) (limit : Nat) :
    (∃ v, evaluate source env limit = .ok v) ∨
      ∃ failure, evaluate source env limit = .error failure ∧ failure.isOrdinary = true := by
  cases hnesting : Nesting.deepest limit source.toList with
  | error excess =>
    right
    refine ⟨.parse (.ofExcess excess) source, ?_, rfl⟩
    simp only [evaluate, parse, SyntaxTree.parse, hnesting]
  | ok nesting =>
    rcases evaluate_cases hnesting with ⟨ts, e, -, -, hmeaning⟩ |
      ⟨expected, found, place, -, hfailure⟩
    · obtain ⟨hsome, hnone⟩ := hmeaning env
      cases hvalue : e.meaning env with
      | some v => exact .inl ⟨v, hsome v hvalue⟩
      | none =>
        obtain ⟨error, hordinary, hfailure⟩ := hnone hvalue
        exact .inr ⟨.evaluation error source, hfailure, hordinary⟩
    · exact .inr ⟨_, hfailure env, rfl⟩

end Source

end Reckon
