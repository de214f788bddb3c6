import Reckon.Proofs.Evaluation.Unfolded

/-!
Spans have no bearing on values. A tree without its spans evaluates to what the
tree does: to the same value, or to a failure for the same cause. This holds of
malformed trees too.
-/

namespace Reckon

/-- A failure without its span. -/
def EvaluationError.bare (e : EvaluationError) : EvaluationError := ⟨e.cause, ⟨0, 0⟩⟩

namespace Unfolded

mutual

/-- A tree without its spans. -/
def bare : Unfolded → Unfolded
  | missing _ => missing ⟨0, 0⟩
  | token rule _ text => token rule ⟨0, 0⟩ text
  | node rule _ children => node rule ⟨0, 0⟩ (bareAll children)
  | repetition rule _ groups => repetition rule ⟨0, 0⟩ (bareGroups groups)

def bareAll : List Unfolded → List Unfolded
  | [] => []
  | u :: us => u.bare :: bareAll us

def bareGroups : List (Unfolded × Unfolded) → List (Unfolded × Unfolded)
  | [] => []
  | (operator, operand) :: groups => (operator.bare, operand.bare) :: bareGroups groups

end

variable (u : Unfolded)

@[simp] theorem rule_bare : u.bare.rule = u.rule := by
  cases u <;> rfl

@[simp] theorem span_bare : u.bare.span = ⟨0, 0⟩ := by
  cases u <;> rfl

@[simp] theorem text?_bare : u.bare.text? = u.text? := by
  cases u <;> rfl

@[simp] theorem valueless_bare : u.bare.valueless = u.valueless.bare := by
  cases u with
  | token rule span text => cases rule <;> rfl
  | _ => rfl

@[simp] theorem malformed_bare (fault : ShapeFault) :
    u.bare.malformed fault = (u.malformed fault).bare := by
  simp [malformed, EvaluationError.bare]

theorem symbol_bare : u.bare.symbol = u.symbol.mapError EvaluationError.bare := by
  match u with
  | missing _ => rfl
  | token rule _ _ => cases h : rule.isOperator <;> simp [bare, symbol, h, Unfolded.rule] <;> rfl
  | repetition rule _ _ =>
    cases h : rule.isOperator <;> simp [bare, symbol, h, Unfolded.rule] <;> rfl
  | node rule _ [] =>
    cases h : rule.isOperator <;> simp [bare, bareAll, symbol, h, Unfolded.rule] <;> rfl
  | node rule _ (_ :: _ :: _) =>
    cases h : rule.isOperator <;> simp [bare, bareAll, symbol, h, Unfolded.rule] <;> rfl
  | node rule _ [only] =>
    cases h : rule.isOperator with
    | false => simp [bare, bareAll, symbol, h]; rfl
    | true => cases htext : only.text? <;> simp [bare, bareAll, symbol, h, htext] <;> rfl

end Unfolded

namespace Valued

mutual

/-- An evaluated tree without the spans in it. -/
def bare : Valued → Valued
  | ⟨tree, value?, groups⟩ => ⟨tree.bare, value?, bareGroups groups⟩

def bareGroups : List (Unfolded × Valued) → List (Unfolded × Valued)
  | [] => []
  | (operator, operand) :: groups => (operator.bare, operand.bare) :: bareGroups groups

end

variable (base index operator operand left many : Valued) (whole : Span)

@[simp] theorem tree_bare : base.bare.tree = base.tree.bare := by
  cases base
  rfl

@[simp] theorem value?_bare : base.bare.value? = base.value? := by
  cases base
  rfl

@[simp] theorem groups_bare : base.bare.groups = bareGroups base.groups := by
  cases base
  rfl

theorem required_bare : base.bare.required = base.required.mapError EvaluationError.bare := by
  simp only [required, value?_bare, tree_bare, Unfolded.valueless_bare]
  cases base.value? <;> rfl

theorem indexed_bare : indexed ⟨0, 0⟩ base.bare index.bare =
    (indexed whole base index).mapError EvaluationError.bare := by
  simp only [indexed, required_bare, tree_bare, Unfolded.span_bare]
  cases index.required with
  | error failure => rfl
  | ok i =>
    cases i with
    | integer position =>
      cases base.required with
      | error failure => rfl
      | ok v =>
        cases v with
        | array items =>
          simp only [Except.mapError, bind, Except.bind]
          cases items.get? position <;> rfl
        | _ => rfl
    | _ => rfl

theorem unary_bare : unary ⟨0, 0⟩ operator.bare operand.bare =
    (unary whole operator operand).mapError EvaluationError.bare := by
  simp only [unary, required_bare, tree_bare, Unfolded.symbol_bare]
  cases operator.tree.symbol with
  | error failure => rfl
  | ok symbol =>
    cases operand.required with
    | error failure => rfl
    | ok v =>
      simp only [Except.mapError, bind, Except.bind]
      cases v.unary symbol <;> rfl

theorem fold_bare (span : Span) (result : Value) (groups : List (Unfolded × Valued)) :
    fold ⟨0, 0⟩ result (bareGroups groups) =
      (fold span result groups).mapError EvaluationError.bare := by
  induction groups generalizing result with
  | nil => rfl
  | cons g groups ih =>
    obtain ⟨operator, operand⟩ := g
    simp only [bareGroups, fold, required_bare, tree_bare, Unfolded.symbol_bare]
    cases operator.symbol with
    | error failure => rfl
    | ok symbol =>
      cases operand.required with
      | error failure => rfl
      | ok v =>
        simp only [Except.mapError, bind, Except.bind]
        cases result.binary symbol v with
        | error cause => simp only [Unfolded.span_bare]; rfl
        | ok result' => exact ih result'

theorem tier_bare : tier left.bare many.bare =
    (tier left many).mapError EvaluationError.bare := by
  simp only [tier, required_bare, tree_bare, groups_bare, Unfolded.span_bare]
  cases left.required with
  | error failure => rfl
  | ok first =>
    simp only [Except.mapError, bind, Except.bind]
    cases htree : many.tree with
    | repetition rule span groups => exact fold_bare _ first _
    | token rule span text => cases rule <;> rfl
    | _ => rfl

theorem map_mapError (result : Except EvaluationError Value) :
    some <$> result.mapError EvaluationError.bare =
      (some <$> result).mapError EvaluationError.bare := by
  cases result <;> rfl

theorem produce_bare (rule : Rule) (children : List Valued) :
    produce rule ⟨0, 0⟩ (children.map bare) =
      (produce rule whole children).mapError EvaluationError.bare := by
  have hnone : ∀ fault : ShapeFault,
      (.error ⟨.malformedTree rule fault, ⟨0, 0⟩⟩ : Except EvaluationError (Option Value)) =
        Except.mapError EvaluationError.bare (.error ⟨.malformedTree rule fault, whole⟩) :=
    fun _ => rfl
  have hok : (.ok none : Except EvaluationError (Option Value)) =
      Except.mapError EvaluationError.bare (.ok none) := rfl
  match children with
  | [] => cases hrole : rule.role <;> simp [produce, hrole, ← hnone, ← hok]
  | [only] =>
    cases hrole : rule.role <;> simp [produce, hrole, required_bare, map_mapError, ← hok]
  | [first, second] =>
    cases hrole : rule.role <;> simp [produce, hrole, unary_bare _ _ whole, tier_bare,
      map_mapError, ← hnone, ← hok]
  | [_, inner, _] =>
    cases hrole : rule.role <;> simp [produce, hrole, required_bare, map_mapError, ← hnone, ← hok]
  | [base, _, index, _] =>
    cases hrole : rule.role <;> simp [produce, hrole, indexed_bare _ _ whole, map_mapError,
      ← hnone, ← hok]
  | _ :: _ :: _ :: _ :: _ :: _ => cases hrole : rule.role <;> simp [produce, hrole, ← hnone, ← hok]

end Valued

namespace Unfolded

open Reckon.Valued

variable (env : Environment)

mutual

theorem valued_bare (isNumber : Bool) (u : Unfolded) :
    u.bare.valued env isNumber =
      ((u.valued env isNumber).map Valued.bare).mapError EvaluationError.bare := by
  cases u with
  | missing whole => rfl
  | token rule span text =>
    simp only [bare, valued, Evaluation.token]
    cases env.get? text with
    | some v => rfl
    | none =>
      cases isNumber with
      | false => rfl
      | true =>
        dsimp only
        cases (Text.int64? (Text.trim text.toList)).map Value.integer <|>
          (Double.ofText? (Text.trim text.toList)).map Value.double <;> rfl
  | node rule span children =>
    simp only [bare, valued, valuedAll_bare _ children]
    cases valuedAll env (rule = .number) children with
    | error failure => rfl
    | ok found =>
      simp only [Except.map, Except.mapError, bind, Except.bind, produce_bare span]
      cases produce rule span found <;> rfl
  | repetition rule span groups =>
    simp only [bare, valued, valuedGroups_bare _ groups]
    cases valuedGroups env (rule = .number) groups <;> rfl

theorem valuedAll_bare (isNumber : Bool) (us : List Unfolded) :
    valuedAll env isNumber (bareAll us) =
      ((valuedAll env isNumber us).map (List.map Valued.bare)).mapError EvaluationError.bare := by
  cases us with
  | nil => rfl
  | cons u us =>
    simp only [bareAll, valuedAll, valued_bare isNumber u, valuedAll_bare isNumber us]
    cases valued env isNumber u with
    | error failure => rfl
    | ok first => cases valuedAll env isNumber us <;> rfl

theorem valuedGroups_bare (isNumber : Bool) (groups : List (Unfolded × Unfolded)) :
    valuedGroups env isNumber (bareGroups groups) =
      ((valuedGroups env isNumber groups).map Valued.bareGroups).mapError
        EvaluationError.bare := by
  cases groups with
  | nil => rfl
  | cons g groups =>
    obtain ⟨operator, operand⟩ := g
    simp only [bareGroups, valuedGroups, valued_bare isNumber operator,
      valued_bare isNumber operand, valuedGroups_bare isNumber groups]
    cases valued env isNumber operator with
    | error failure => rfl
    | ok first =>
      cases valued env isNumber operand with
      | error failure => rfl
      | ok second => cases valuedGroups env isNumber groups <;> rfl

end

/-- A tree without its spans has the same value, or fails for the same cause. -/
theorem evaluate_bare (u : Unfolded) :
    u.bare.evaluate env = (u.evaluate env).mapError EvaluationError.bare := by
  simp only [evaluate, valued_bare]
  cases u.valued env.withTruthValues false with
  | error failure => rfl
  | ok found => exact found.required_bare

/-- Trees that differ in their spans only have the same value, or fail for the same cause. -/
theorem evaluate_congr {u u' : Unfolded} (h : u.bare = u'.bare) :
    (u.evaluate env).mapError EvaluationError.cause =
      (u'.evaluate env).mapError EvaluationError.cause := by
  have hbare : ∀ u : Unfolded, (u.evaluate env).mapError EvaluationError.cause =
      (u.bare.evaluate env).mapError EvaluationError.cause := by
    intro u
    rw [evaluate_bare]
    cases u.evaluate env <;> rfl
  rw [hbare u, hbare u', h]

end Unfolded

end Reckon
