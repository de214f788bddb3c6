import Reckon.Proofs.Evaluation.Recursion
import Reckon.Proofs.Expression.Basic
import Reckon.Proofs.Syntax.Layout

/-!
The entries of an expression one at a time. Each has a value when the entries
that it needs have one and its operators have one for them; otherwise it fails,
and never because its tree is malformed.
-/

namespace Reckon

open Grammar

/-- Whether a source text can fail with a cause: all but the ones about malformed trees. -/
def EvaluationCause.isOrdinary : EvaluationCause → Bool
  | unsupportedOperator _ _ => true
  | operandMismatch _ _ _ => true
  | indexNotInteger _ => true
  | notAnArray _ => true
  | indexOutOfBounds _ _ => true
  | undefinedVariable _ => true
  | malformedNumber _ => false
  | missingValue _ => false
  | malformedTree _ _ => false

namespace Value

theorem cause_of_binary {left right : Value} {symbol : String} {cause : EvaluationCause}
    (h : left.binary symbol right = .error cause) :
    cause = .unsupportedOperator symbol left.type ∨
      cause = .operandMismatch symbol left.type right.type := by
  unfold binary at h
  split at h
  · cases h
    exact .inl rfl
  · next op hop =>
    cases left <;>
      simp only [binaryDouble, binaryInteger, binaryBoolean, binaryTimestamp] at h <;> grind

theorem cause_of_unary {operand : Value} {symbol : String} {cause : EvaluationCause}
    (h : operand.unary symbol = .error cause) :
    cause = .unsupportedOperator symbol operand.type := by
  unfold unary at h
  split at h <;> cases h
  rfl

theorem isOrdinary_of_binary {left right : Value} {symbol : String} {cause : EvaluationCause}
    (h : left.binary symbol right = .error cause) : cause.isOrdinary = true := by
  rcases cause_of_binary h with rfl | rfl <;> rfl

theorem isOrdinary_of_unary {operand : Value} {symbol : String} {cause : EvaluationCause}
    (h : operand.unary symbol = .error cause) : cause.isOrdinary = true := by
  rw [cause_of_unary h]
  rfl

end Value

namespace Evaluation

/-- A result is the value, or an ordinary failure where there is none. -/
def Agrees {α : Type} (result : Except EvaluationError α) : Option α → Prop
  | some v => result = .ok v
  | none => ∃ failure, result = .error failure ∧ failure.cause.isOrdinary = true

/-- Recursion finds this value at a place, or an ordinary failure where there is none. -/
def AgreesAt (t : SyntaxTree) (env : Environment) (isNumber : Place → Bool) (id : Place)
    (value? : Option Value) : Prop :=
  Agrees (recursive t env isNumber id) (value?.map some)

variable {t : SyntaxTree} {env : Environment} {isNumber : Place → Bool} {id : Place}

theorem agrees_of_unary {operand : Value} {symbol : String} (span : Span) :
    Agrees (match operand.unary symbol with
      | .error cause => .error ⟨cause, span⟩
      | .ok v => .ok v) (operand.unary symbol).toOption := by
  cases h : operand.unary symbol with
  | error cause => exact ⟨⟨cause, span⟩, rfl, Value.isOrdinary_of_unary h⟩
  | ok v => rfl

theorem required_of_recursive {v : Value} (h : recursive t env isNumber id = .ok (some v)) :
    required t (value? t env isNumber) id = .ok v := by
  simp only [required, value?, h, Except.toOption, Option.join_some]

/-- A token that does not count as a number never fails. -/
theorem recursive_word {rule : Rule} {span : Span} {text : String}
    (h : t.get? id = some ⟨rule, span, .token text⟩) (hid : isNumber id = false) :
    recursive t env isNumber id = .ok (env.get? text) := by
  rw [recursive_token h, hid, token]
  cases env.get? text <;> rfl

theorem node_single {e : Entry} (hrule : e.rule.role ≠ .operator) (v? : Place → Option Value)
    (child : Place) : node t v? e [child] = some <$> required t v? child := by
  cases hrole : e.rule.role <;> simp_all [node]

theorem Agrees.map_some {result : Except EvaluationError Value} {v? : Option Value}
    (h : Agrees result v?) : Agrees (some <$> result) (v?.map some) := by
  cases v? with
  | none =>
    obtain ⟨failure, rfl, hordinary⟩ := h
    exact ⟨failure, rfl, hordinary⟩
  | some v =>
    obtain rfl : result = .ok v := h
    rfl

/-- The children of an entry have been evaluated; the entry decides. -/
theorem agreesAt_node {rule : Rule} {span : Span} {ids : List Place} {vs : List (Option Value)}
    {result : Except EvaluationError Value} {v? : Option Value}
    (h : t.get? id = some ⟨rule, span, .node ids⟩)
    (hchildren : ids.mapM (recursive t env isNumber) = .ok vs)
    (hnode : node t (value? t env isNumber) ⟨rule, span, .node ids⟩ ids = some <$> result)
    (hresult : Agrees result v?) : AgreesAt t env isNumber id v? := by
  rw [AgreesAt, recursive_node h, hchildren, hnode]
  exact hresult.map_some

/-- A child of an entry has failed, and the entry fails with it. -/
theorem agreesAt_none {rule : Rule} {span : Span} {ids : List Place}
    (h : t.get? id = some ⟨rule, span, .node ids⟩)
    (hchildren : ∃ failure, ids.mapM (recursive t env isNumber) = .error failure ∧
      failure.cause.isOrdinary = true) : AgreesAt t env isNumber id none := by
  obtain ⟨failure, hfailure, hordinary⟩ := hchildren
  exact ⟨failure, by rw [recursive_node h, hfailure], hordinary⟩

/-- An entry with an only child passes its value on. -/
theorem agreesAt_single {rule : Rule} {span : Span} {child : Place} {v? : Option Value}
    (h : t.get? id = some ⟨rule, span, .node [child]⟩) (hrule : rule.role ≠ .operator)
    (hchild : AgreesAt t env isNumber child v?) : AgreesAt t env isNumber id v? := by
  cases v? with
  | none =>
    obtain ⟨failure, hfailure, hordinary⟩ := hchild
    exact agreesAt_none h ⟨failure, by rw [List.mapM_cons, hfailure]; rfl, hordinary⟩
  | some v =>
    have hv : recursive t env isNumber child = .ok (some v) := hchild
    refine agreesAt_node h (by rw [List.mapM_cons, hv]; rfl) (node_single hrule _ _) ?_
    exact required_of_recursive hv

/-- An operator has no value and does not fail. -/
theorem recursive_operator {rule : Rule} {span : Span} {child : Place} {w : Option Value}
    (h : t.get? id = some ⟨rule, span, .node [child]⟩) (hrule : rule.role = .operator)
    (hchild : recursive t env isNumber child = .ok w) :
    recursive t env isNumber id = .ok none := by
  rw [recursive_node h, List.mapM_cons, hchild]
  simp [node, hrule]

theorem symbolOf_eq {rule rule' : Rule} {span span' : Span} {child : Place} {text : String}
    (h : t.get? id = some ⟨rule, span, .node [child]⟩) (hrule : rule.role = .operator)
    (hchild : t.get? child = some ⟨rule', span', .token text⟩) : symbolOf t id = .ok text := by
  simp only [symbolOf, h, Rule.isOperator, hrule, decide_true, if_true, hchild]
  rfl

section operand

variable {span span' span'' : Span} {v? : Option Value} {text : String}

theorem agreesAt_group {o inner c : Place} {w w' : Option Value}
    (h : t.get? id = some ⟨.primary, span, .node [o, inner, c]⟩)
    (ho : recursive t env isNumber o = .ok w) (hc : recursive t env isNumber c = .ok w')
    (hinner : AgreesAt t env isNumber inner v?) : AgreesAt t env isNumber id v? := by
  cases v? with
  | none =>
    obtain ⟨failure, hfailure, hordinary⟩ := hinner
    refine agreesAt_none h ⟨failure, ?_, hordinary⟩
    rw [List.mapM_cons, List.mapM_cons, ho, hfailure]
    rfl
  | some v =>
    have hv : recursive t env isNumber inner = .ok (some v) := hinner
    have hchildren : [o, inner, c].mapM (recursive t env isNumber) = .ok [w, some v, w'] := by
      simp only [List.mapM_cons, List.mapM_nil, ho, hv, hc]
      rfl
    exact agreesAt_node h hchildren rfl (required_of_recursive hv)

/-- A name without a binding is an ordinary failure where its value is needed. -/
theorem agrees_required_name (h : t.get? id = some ⟨.identifier, span, .token text⟩)
    (hid : isNumber id = false) :
    Agrees (required t (value? t env isNumber) id) (env.get? text) := by
  have hvalue : value? t env isNumber id = env.get? text := by
    rw [value?, recursive_word h hid]
    rfl
  cases hget : env.get? text with
  | some v =>
    simp only [Agrees, required, hvalue, hget]
  | none =>
    refine ⟨⟨.undefinedVariable text, span⟩, ?_, rfl⟩
    simp only [required, hvalue, hget, missing, h]

theorem agreesAt_name {child : Place} (h : t.get? id = some ⟨.primary, span, .node [child]⟩)
    (hchild : t.get? child = some ⟨.identifier, span', .token text⟩)
    (hword : isNumber child = false) : AgreesAt t env isNumber id (env.get? text) := by
  have hchildren : [child].mapM (recursive t env isNumber) = .ok [env.get? text] := by
    rw [List.mapM_cons, recursive_word hchild hword]
    rfl
  exact agreesAt_node h hchildren rfl (agrees_required_name hchild hword)

theorem agrees_indexed {e : Entry} {base position : Place} {i : Value}
    (hbase : Agrees (required t (value? t env isNumber) base) (env.get? text))
    (hi : required t (value? t env isNumber) position = .ok i) :
    Agrees (indexed t (value? t env isNumber) e base position)
      ((env.get? text).bind (·.elementAt? i)) := by
  have hnone : (∀ n, i ≠ .integer n) → (env.get? text).bind (·.elementAt? i) = none := by
    intro hinteger
    cases env.get? text with
    | none => rfl
    | some v => cases v <;> cases i <;> first | rfl | exact absurd rfl (hinteger _)
  unfold indexed
  rw [hi]
  cases i with
  | integer n =>
    cases hget : env.get? text with
    | none =>
      rw [hget] at hbase
      obtain ⟨failure, hfailure, hordinary⟩ := hbase
      exact ⟨failure, by simp only [hfailure], hordinary⟩
    | some v =>
      rw [hget] at hbase
      have hv : required t (value? t env isNumber) base = .ok v := hbase
      simp only [hv, Option.bind_some]
      cases v with
      | array items =>
        cases helement : items.get? n with
        | none =>
          simp only [Value.elementAt?, helement]
          exact ⟨_, rfl, rfl⟩
        | some element =>
          simp only [Value.elementAt?, helement]
          rfl
      | _ => exact ⟨_, rfl, rfl⟩
  | _ =>
    rw [hnone (by simp)]
    exact ⟨_, rfl, rfl⟩

theorem agreesAt_index {base o position c : Place} {w w' : Option Value}
    (h : t.get? id = some ⟨.primary, span, .node [base, o, position, c]⟩)
    (hbase : t.get? base = some ⟨.identifier, span', .token text⟩) (hword : isNumber base = false)
    (ho : recursive t env isNumber o = .ok w) (hc : recursive t env isNumber c = .ok w')
    (hposition : AgreesAt t env isNumber position v?) :
    AgreesAt t env isNumber id (v?.bind fun i => (env.get? text).bind (·.elementAt? i)) := by
  have hname : recursive t env isNumber base = .ok (env.get? text) := recursive_word hbase hword
  cases v? with
  | none =>
    obtain ⟨failure, hfailure, hordinary⟩ := hposition
    refine agreesAt_none h ⟨failure, ?_, hordinary⟩
    rw [List.mapM_cons, List.mapM_cons, List.mapM_cons, hname, ho, hfailure]
    rfl
  | some i =>
    have hi : recursive t env isNumber position = .ok (some i) := hposition
    have hchildren : [base, o, position, c].mapM (recursive t env isNumber) =
        .ok [env.get? text, w, some i, w'] := by
      simp only [List.mapM_cons, List.mapM_nil, hname, ho, hi, hc]
      rfl
    exact agreesAt_node h hchildren rfl
      (agrees_indexed (agrees_required_name hbase hword) (required_of_recursive hi))

theorem agreesAt_unary {operator operand token : Place} {s : Symbol}
    (h : t.get? id = some ⟨.unary, span, .node [operator, operand]⟩)
    (hoperator : t.get? operator = some ⟨.unaryOperator, span', .node [token]⟩)
    (htoken : t.get? token = some ⟨.symbol s, span'', .token text⟩)
    (hword : isNumber token = false) (hoperand : AgreesAt t env isNumber operand v?) :
    AgreesAt t env isNumber id (v?.bind fun v => (v.unary text).toOption) := by
  have hnone : recursive t env isNumber operator = .ok none :=
    recursive_operator hoperator rfl (recursive_word htoken hword)
  cases v? with
  | none =>
    obtain ⟨failure, hfailure, hordinary⟩ := hoperand
    refine agreesAt_none h ⟨failure, ?_, hordinary⟩
    rw [List.mapM_cons, List.mapM_cons, hnone, hfailure]
    rfl
  | some v =>
    have hv : recursive t env isNumber operand = .ok (some v) := hoperand
    have hchildren : [operator, operand].mapM (recursive t env isNumber) =
        .ok [none, some v] := by
      simp only [List.mapM_cons, List.mapM_nil, hnone, hv]
      rfl
    refine agreesAt_node h hchildren rfl ?_
    rw [unary, symbolOf_eq hoperator rfl htoken]
    simp only [required_of_recursive hv]
    exact agrees_of_unary span

end operand

/-- Operators with operands stand in a row; the operands have these values. -/
def RoundsAt (t : SyntaxTree) (env : Environment) (isNumber : Place → Bool) :
    List (String × Option Value) → List Place → Prop
  | [], ids => ids = []
  | (text, w?) :: rounds, ids =>
    ∃ operator operand more, ids = operator :: operand :: more ∧
      recursive t env isNumber operator = .ok none ∧ symbolOf t operator = .ok text ∧
      AgreesAt t env isNumber operand w? ∧ RoundsAt t env isNumber rounds more

/-- Operators applied from left to right. -/
def foldRounds (v : Value) : List (String × Option Value) → Option Value
  | [] => some v
  | (text, w?) :: rounds => do
    let w ← w?
    let v ← (v.binary text w).toOption
    foldRounds v rounds

theorem foldRounds_error {v w : Value} {text : String} {cause : EvaluationCause}
    (h : v.binary text w = .error cause) (rounds : List (String × Option Value)) :
    foldRounds v ((text, some w) :: rounds) = none := by
  simp [foldRounds, h, Except.toOption]

theorem foldRounds_ok {v w v' : Value} {text : String} (h : v.binary text w = .ok v')
    (rounds : List (String × Option Value)) :
    foldRounds v ((text, some w) :: rounds) = foldRounds v' rounds := by
  simp [foldRounds, h, Except.toOption]

/-- Rounds pair up. All operands have a value and the operators are applied to them, or the first
without one fails. -/
theorem RoundsAt.agrees {rounds : List (String × Option Value)} {ids : List Place}
    (h : RoundsAt t env isNumber rounds ids) :
    ∃ groups, OperatorGroup.ofChildren? ids = some groups ∧
      ((∃ vs, ids.mapM (recursive t env isNumber) = .ok vs ∧ ∀ left v,
          Agrees (fold t (value? t env isNumber) left v groups) (foldRounds v rounds)) ∨
        (∃ failure, ids.mapM (recursive t env isNumber) = .error failure ∧
          failure.cause.isOrdinary = true) ∧ ∀ v, foldRounds v rounds = none) := by
  induction rounds generalizing ids with
  | nil =>
    obtain rfl : ids = [] := h
    exact ⟨[], rfl, .inl ⟨[], rfl, fun _ _ => rfl⟩⟩
  | cons round rounds ih =>
    obtain ⟨text, w?⟩ := round
    obtain ⟨operator, operand, more, rfl, hoperator, hsymbol, hoperand, hrounds⟩ := h
    obtain ⟨groups, hgroups, hcases⟩ := ih hrounds
    refine ⟨⟨operator, operand⟩ :: groups, by rw [OperatorGroup.ofChildren?, hgroups]; rfl, ?_⟩
    rw [List.mapM_cons, List.mapM_cons, hoperator]
    cases w? with
    | none =>
      obtain ⟨failure, hfailure, hordinary⟩ := hoperand
      exact .inr ⟨⟨failure, by rw [hfailure]; rfl, hordinary⟩, fun _ => rfl⟩
    | some w =>
      have hw : recursive t env isNumber operand = .ok (some w) := hoperand
      rw [hw]
      rcases hcases with ⟨vs, hvs, hfold⟩ | ⟨⟨failure, hfailure, hordinary⟩, hnone⟩
      · refine .inl ⟨none :: some w :: vs, by rw [hvs]; rfl, ?_⟩
        intro left v
        simp only [fold, hsymbol, required_of_recursive hw]
        cases hbinary : v.binary text w with
        | error cause =>
          rw [foldRounds_error hbinary]
          exact ⟨_, rfl, Value.isOrdinary_of_binary hbinary⟩
        | ok v' =>
          rw [foldRounds_ok hbinary]
          exact hfold left v'
      · refine .inr ⟨⟨failure, by rw [hfailure]; rfl, hordinary⟩, ?_⟩
        intro v
        cases hbinary : v.binary text w with
        | error cause => exact foldRounds_error hbinary rounds
        | ok v' => rw [foldRounds_ok hbinary, hnone]

theorem agreesAt_tier {tr : Tier} {span span' : Span} {first many : Place} {v? : Option Value}
    {groups : List OperatorGroup} {rounds : List (String × Option Value)}
    (h : t.get? id = some ⟨.tier tr, span, .node [first, many]⟩)
    (hmany : t.get? many = some ⟨.repetition tr, span', .repetition groups⟩)
    (hrounds : RoundsAt t env isNumber rounds (Shape.repetition groups).children)
    (hfirst : AgreesAt t env isNumber first v?) :
    AgreesAt t env isNumber id (v?.bind (foldRounds · rounds)) := by
  have hrecursive : recursive t env isNumber many = _ := recursive_repetition hmany
  obtain ⟨groups', hgroups, hcases⟩ := hrounds.agrees
  obtain rfl : groups = groups' :=
    Option.some.inj ((OperatorGroup.ofChildren?_children groups).symm.trans hgroups)
  cases v? with
  | none =>
    obtain ⟨failure, hfailure, hordinary⟩ := hfirst
    exact agreesAt_none h ⟨failure, by rw [List.mapM_cons, hfailure]; rfl, hordinary⟩
  | some v =>
    have hv : recursive t env isNumber first = .ok (some v) := hfirst
    rcases hcases with ⟨vs, hvs, hfold⟩ | ⟨⟨failure, hfailure, hordinary⟩, hnone⟩
    · rw [hvs] at hrecursive
      have hchildren : [first, many].mapM (recursive t env isNumber) = .ok [some v, none] := by
        simp only [List.mapM_cons, List.mapM_nil, hv, hrecursive]
        rfl
      refine agreesAt_node h hchildren rfl ?_
      simp only [tier, required_of_recursive hv, hmany]
      exact hfold (t.spanOf first) v
    · rw [hfailure] at hrecursive
      have hbind : (some v).bind (foldRounds · rounds) = none := hnone v
      rw [hbind]
      refine agreesAt_none h ⟨failure, ?_, hordinary⟩
      rw [List.mapM_cons, List.mapM_cons, hv, hrecursive]
      rfl

end Evaluation

end Reckon
