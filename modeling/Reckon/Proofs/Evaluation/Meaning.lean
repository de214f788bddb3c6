import Reckon.Proofs.Evaluation.Ordinary
import Reckon.Proofs.Expression.Rendering
import Reckon.Proofs.Expression.Spacing
import Reckon.Proofs.Grammar.Nesting

/-!
Evaluation from end to end. However an expression is written, the value of the
text is the meaning of the expression: the scan takes the tokens that were
written, the tree that is read is a phrase of these tokens, and the tokens are
a phrase for no other expression.
-/

namespace Reckon.Source

/-- A text in which an expression is written has the meaning of the expression as its value. Where
there is no meaning the evaluation fails, and the text is read in any case. -/
theorem evaluate_renders {e : Expr} {ts : List String} (h : Renders .alone e ts)
    (env : Environment) {limit : Nat}
    (hlimit : Text.byteLength (" ".intercalate ts).toList ≤ limit) :
    (∀ v, evaluate (" ".intercalate ts) env limit = .ok v ↔ e.meaning env = some v) ∧
      ((∃ error, evaluate (" ".intercalate ts) env limit =
          .error (.evaluation error (" ".intercalate ts))) ↔ e.meaning env = none) ∧
      ∀ error source, evaluate (" ".intercalate ts) env limit ≠ .error (.parse error source) := by
  have hphrase : Phrase (.tiers Tier.all) ts e := h.phrase
  obtain ⟨nesting, hnesting⟩ :=
    Nesting.exists_deepest_eq_ok ((Text.length_le_byteLength _).trans hlimit)
  have hscan : (Grammar.Scanner.start (" ".intercalate ts).toList).run = ⟨ts, none⟩ := by
    rw [toList_intercalate_eq_spaced]
    exact hphrase.run_spaced
  rcases evaluate_cases hnesting with ⟨ts', e', hscan', hphrase', hvalue⟩ |
    ⟨expected, found, place, hstuck, -⟩
  · obtain rfl : ts = ts' := congrArg Grammar.Scan.lexemes (hscan.symm.trans hscan')
    have hends : (Category.tiers Tier.all).Ends [] := nofun
    obtain ⟨-, rfl, -⟩ := hphrase.unique hphrase' (by decide) rfl hends hends
    obtain ⟨hsome, hnone⟩ := hvalue env
    cases hmeaning : e.meaning env with
    | some v =>
      rw [hsome v hmeaning]
      simp
    | none =>
      obtain ⟨error, -, hfailure⟩ := hnone hmeaning
      rw [hfailure]
      simp
  · rw [hscan] at hstuck
    cases hstuck

theorem evaluate_renders_product :
    evaluate (" ".intercalate ["(", "1", "+", "a", ")", "*", "1"])
      (Environment.empty.insert "a" (.integer 4)) 13 = .ok (.integer 5) := by
  let one : NumberLiteral := ⟨"1", by decide⟩
  let a : Name := ⟨"a", by decide⟩
  have hsum : Renders .alone (.binary (.arithmetic .add) (.number one) (.name a))
      ["1", "+", "a"] :=
    .binary (.arithmetic .add) rfl (.number one) (.name a)
  have hproduct : Renders .alone (.binary (.arithmetic .mul)
      (.binary (.arithmetic .add) (.number one) (.name a)) (.number one))
      ["(", "1", "+", "a", ")", "*", "1"] :=
    .binary (.arithmetic .mul) rfl (.group hsum) (.number one)
  exact ((evaluate_renders hproduct _ (by decide)).1 _).mpr (by decide +kernel)

end Reckon.Source
