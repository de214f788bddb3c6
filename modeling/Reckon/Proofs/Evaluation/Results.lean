import Reckon.Proofs.Evaluation.Trees

/-!
The results of matched trees, one equation for each rule. An operand has a
value whenever its evaluation comes to its end, so its result says all about
it; the rounds of a repetition give symbols, each with a value.
-/

namespace Reckon

open Grammar ParseTree

/-- A tree that has been evaluated to a value. -/
def ParseTree.withValue (tree : ParseTree) (v : Value) : Valued := ⟨tree.unfolded, some v, []⟩

/-- Evaluation of a tree has this result, and the tree has a value if it does not fail. -/
def ParseTree.Gives (env : Environment) (tree : ParseTree) (r : Except EvaluationError Value) :
    Prop :=
  tree.unfolded.valued env false = r.map tree.withValue

theorem ParseTree.Gives.evaluate_eq {env : Environment} {tree : ParseTree}
    {r : Except EvaluationError Value} (h : tree.Gives env.withTruthValues r) :
    tree.unfolded.evaluate env = r := by
  rw [Unfolded.evaluate, h]
  cases r <;> rfl

section gives

variable {env : Environment} {tree : ParseTree} {r : Except EvaluationError Value}
  {c d e stop stop' : Cursor} {lexeme rest inner outer : List Char}

/-- A tree over some children has a result that its rule makes of theirs. -/
theorem gives_branch {α : Type} {rule : Rule} {children : List ParseTree}
    (found : Except EvaluationError α) (evaluated : α → List Valued)
    (result : α → Except EvaluationError Value) (hrule : rule.role ≠ .repetition)
    (hchildren : Unfolded.valuedAll env (rule = .number) (unfoldedAll children) =
      found.map evaluated)
    (hproduce : ∀ a, Valued.produce rule ⟨c.offset, stop.offset⟩ (evaluated a) =
      some <$> result a) :
    (c.branch stop rule children).Gives env (found >>= result) := by
  have hunfolded : (c.branch stop rule children).unfolded =
      .node rule ⟨c.offset, stop.offset⟩ (unfoldedAll children) := by
    rw [Cursor.branch, unfolded, if_neg hrule]
  rw [Gives, hunfolded, Unfolded.valued, hchildren]
  cases found with
  | error failure => rfl
  | ok a =>
    change (Valued.produce rule ⟨c.offset, stop.offset⟩ (evaluated a) >>= _) = (result a).map _
    rw [hproduce]
    cases result a with
    | error failure => rfl
    | ok v =>
      rw [← hunfolded]
      rfl

/-- An only child passes its result on. -/
theorem gives_single {rule : Rule} (hrule : rule.role = .wrapper ∨ rule.role = .primary ∨
    rule.role = .unaryPrimary) (h : tree.Gives env r) :
    (c.branch stop rule [tree]).Gives env r := by
  have hnumber : decide (rule = .number) = false := by
    rw [decide_eq_false_iff_not]
    rintro rfl
    rcases hrule with h | h | h <;> cases h
  have hrepetition : rule.role ≠ .repetition := by
    rcases hrule with h | h | h <;> rw [h] <;> nofun
  have hgives : (c.branch stop rule [tree]).Gives env (r >>= .ok) := by
    refine gives_branch r (fun v => [tree.withValue v]) _ hrepetition ?_ ?_
    · rw [hnumber, unfoldedAll, unfoldedAll, Unfolded.valuedAll, Unfolded.valuedAll, h]
      cases r <;> rfl
    · intro v
      rcases hrule with h | h | h <;> simp only [Valued.produce, h] <;> rfl
  cases r <;> exact hgives

theorem gives_atom {children : List ParseTree} (h : (c.branch stop .primary children).Gives env r) :
    (c.atom stop children).Gives env r :=
  gives_single (.inr (.inr rfl)) h

/-- A token that has been evaluated; it has the value that its text is bound to, if any. -/
def Grammar.Cursor.leafValue (c : Cursor) (env : Environment) (rule : Rule)
    (lexeme rest : List Char) : Valued :=
  ⟨(c.leaf rule lexeme rest).unfolded, env.get? (String.ofList lexeme), []⟩

theorem valued_leaf (rule : Rule) (c : Cursor) (lexeme rest : List Char) :
    (c.leaf rule lexeme rest).unfolded.valued env false =
      .ok (c.leafValue env rule lexeme rest) := by
  rw [Cursor.leafValue, Cursor.leaf, unfolded, Unfolded.valued, Evaluation.token]
  cases env.get? (String.ofList lexeme) <;> rfl

theorem gives_name (env : Environment) (c : Cursor) (lexeme rest : List Char) :
    (c.atom (c.after lexeme rest) [c.leaf .identifier lexeme rest]).Gives env
      (c.leafValue env .identifier lexeme rest).required := by
  refine gives_atom (gives_branch (.ok ()) (fun _ => [c.leafValue env .identifier lexeme rest])
    (fun _ => (c.leafValue env .identifier lexeme rest).required) nofun ?_ fun _ => rfl)
  simp only [unfoldedAll, Unfolded.valuedAll, reduceCtorEq, decide_false, valued_leaf]
  rfl

/-- A number has a value in every environment. -/
theorem gives_number (env : Environment) (h : Lexeme.number? c.rest = some (lexeme, rest)) :
    ∃ v, (NumberLiteral.ofNumber? h).value? env = some v ∧
      (c.atom (c.after lexeme rest) [c.branch (c.after lexeme rest) .number
        [c.leaf .numberLiteral lexeme rest]]).Gives env (.ok v) := by
  obtain ⟨v, hvalue, htoken⟩ := (NumberLiteral.ofNumber? h).exists_value? env ⟨.numberLiteral,
    ⟨c.offset, (c.after lexeme rest).offset⟩, .token (String.ofList lexeme)⟩
  have hv : Evaluation.token env true ⟨.numberLiteral,
      ⟨c.offset, (c.after lexeme rest).offset⟩, .token (String.ofList lexeme)⟩
      (String.ofList lexeme) = .ok (some v) := htoken
  refine ⟨v, hvalue, gives_atom (gives_single (.inr (.inl rfl)) (gives_branch (.ok ())
    (fun _ => [(c.leaf .numberLiteral lexeme rest).withValue v]) (fun _ => .ok v) nofun ?_
    fun _ => rfl))⟩
  simp only [Cursor.leaf, unfoldedAll, unfolded, Unfolded.valuedAll, Unfolded.valued, decide_true]
  rw [hv]
  rfl

theorem gives_group (h : tree.Gives env r) :
    (c.atom stop [c.leaf .openParen ['('] inner, tree, e.leaf .closeParen [')'] outer]).Gives env
      r := by
  have hgives : (c.branch stop .primary
      [c.leaf .openParen ['('] inner, tree, e.leaf .closeParen [')'] outer]).Gives env
      (r >>= .ok) := by
    refine gives_branch r (fun v => [c.leafValue env .openParen ['('] inner, tree.withValue v,
      e.leafValue env .closeParen [')'] outer]) _ nofun ?_ fun _ => rfl
    simp only [unfoldedAll, Unfolded.valuedAll, reduceCtorEq, decide_false, valued_leaf]
    rw [h]
    cases r <;> rfl
  cases r <;> exact gives_atom hgives

theorem gives_indexed (h : tree.Gives env r) :
    (c.atom stop [c.leaf .identifier lexeme rest, d.leaf .openBracket ['['] inner, tree,
      e.leaf .closeBracket [']'] outer]).Gives env
      (r >>= fun v => Valued.indexed ⟨c.offset, stop.offset⟩
        (c.leafValue env .identifier lexeme rest) (tree.withValue v)) := by
  refine gives_atom (gives_branch r (fun v => [c.leafValue env .identifier lexeme rest,
    d.leafValue env .openBracket ['['] inner, tree.withValue v,
    e.leafValue env .closeBracket [']'] outer]) _ nofun ?_ fun _ => rfl)
  simp only [unfoldedAll, Unfolded.valuedAll, reduceCtorEq, decide_false, valued_leaf]
  rw [h]
  cases r <;> rfl

/-- A tree of an operator that has been evaluated; it has no value. -/
def Grammar.Cursor.operatorValue (c : Cursor) (rule : Rule) (s : Symbol) (rest : List Char) :
    Valued :=
  ⟨(c.branch (c.after s.text rest) rule [c.leaf (.symbol s) s.text rest]).unfolded, none, []⟩

theorem unfolded_operator {rule : Rule} (hrule : rule.role = .operator) (c : Cursor) (s : Symbol)
    (rest : List Char) :
    (c.operatorValue rule s rest).tree = .node rule ⟨c.offset, (c.after s.text rest).offset⟩
      [(c.leaf (.symbol s) s.text rest).unfolded] := by
  rw [Cursor.operatorValue, Cursor.branch, unfolded, if_neg (by simp [hrule])]
  rfl

theorem valued_operator {rule : Rule} (hrule : rule.role = .operator) (c : Cursor) (s : Symbol)
    (rest : List Char) :
    (c.operatorValue rule s rest).tree.valued env false = .ok (c.operatorValue rule s rest) := by
  have htree := unfolded_operator hrule c s rest
  have hnumber : decide (rule = .number) = false := by
    rw [decide_eq_false_iff_not]
    rintro rfl
    cases hrule
  rw [htree, Unfolded.valued, Unfolded.valuedAll, Unfolded.valuedAll, hnumber, valued_leaf]
  simp only [Valued.produce, hrule, bind, Except.bind, pure, Except.pure]
  rw [← htree]
  rfl

theorem symbol_operator {rule : Rule} (hrule : rule.role = .operator) (c : Cursor) (s : Symbol)
    (rest : List Char) :
    (c.operatorValue rule s rest).tree.symbol = .ok (String.ofList s.text) := by
  rw [unfolded_operator hrule, Unfolded.symbol, if_pos (by simp [Rule.isOperator, hrule])]
  rfl

theorem gives_signed (s : Symbol) (h : tree.Gives env r) :
    (c.branch stop .unary
      [c.branch (c.after s.text rest) .unaryOperator [c.leaf (.symbol s) s.text rest],
        tree]).Gives env
      (r >>= fun v => match v.unary (String.ofList s.text) with
        | .error cause => .error ⟨cause, ⟨c.offset, stop.offset⟩⟩
        | .ok result => .ok result) := by
  have hvalued : (c.operatorValue .unaryOperator s rest).tree.valued env false = _ :=
    valued_operator rfl c s rest
  have hsymbol : (c.operatorValue .unaryOperator s rest).tree.symbol = _ :=
    symbol_operator rfl c s rest
  refine gives_branch r (fun v => [c.operatorValue .unaryOperator s rest, tree.withValue v]) _ nofun
    ?_ ?_
  · have hchildren : unfoldedAll [c.branch (c.after s.text rest) .unaryOperator
        [c.leaf (.symbol s) s.text rest], tree] =
        [(c.operatorValue .unaryOperator s rest).tree, tree.unfolded] := rfl
    simp only [hchildren, Unfolded.valuedAll, reduceCtorEq, decide_false, hvalued]
    rw [h]
    cases r <;> rfl
  · intro v
    simp only [Valued.produce, Rule.role, Valued.unary, hsymbol]
    rfl

/-- A sign before an operand applies to its value. -/
theorem gives_signed_ok {v w : Value} (s : Symbol) (h : tree.Gives env (.ok v))
    (hw : v.unary (String.ofList s.text) = .ok w) :
    (c.branch stop .unary
      [c.branch (c.after s.text rest) .unaryOperator [c.leaf (.symbol s) s.text rest],
        tree]).Gives env (.ok w) := by
  have hgives := @gives_signed env tree (.ok v) c stop rest s h
  simp only [bind, Except.bind, hw] at hgives
  exact hgives

/-- The rounds of a repetition that have been evaluated, or the failure of one of them. -/
def ParseTree.groups (env : Environment) (trees : List ParseTree) :
    Except EvaluationError (List (Unfolded × Valued)) :=
  Unfolded.valuedGroups env false (Unfolded.pairs (unfoldedAll trees))

theorem groups_round {t : Tier} {trees : List ParseTree} (s : Symbol) (h : tree.Gives env r) :
    groups env ([c.branch (c.after s.text rest) (.tierOperator t)
        [c.leaf (.symbol s) s.text rest], tree] ++ trees) =
      r >>= fun v => (groups env trees).map
        (((c.operatorValue (.tierOperator t) s rest).tree, tree.withValue v) :: ·) := by
  have hvalued : (c.operatorValue (.tierOperator t) s rest).tree.valued env false = _ :=
    valued_operator rfl c s rest
  have hpairs : Unfolded.pairs (unfoldedAll ([c.branch (c.after s.text rest) (.tierOperator t)
        [c.leaf (.symbol s) s.text rest], tree] ++ trees)) =
      ((c.operatorValue (.tierOperator t) s rest).tree, tree.unfolded) ::
        Unfolded.pairs (unfoldedAll trees) := rfl
  rw [groups, hpairs, Unfolded.valuedGroups, hvalued, h]
  cases r with
  | error failure => rfl
  | ok v =>
    change (groups env trees >>= _) = (groups env trees).map _
    cases groups env trees <;> rfl

/-- The rounds of a repetition applied from left to right. -/
theorem fold_round {t : Tier} (left : Span) (l v : Value) (s : Symbol)
    (more : List (Unfolded × Valued)) :
    Valued.fold left l
        (((c.operatorValue (.tierOperator t) s rest).tree, tree.withValue v) :: more) =
      match l.binary (String.ofList s.text) v with
      | .error cause => .error ⟨cause, left.combine tree.unfolded.span⟩
      | .ok l' => Valued.fold left l' more := by
  have hsymbol : (c.operatorValue (.tierOperator t) s rest).tree.symbol = _ :=
    symbol_operator rfl c s rest
  rw [Valued.fold, hsymbol]
  rfl

theorem gives_tier {t : Tier} {trees : List ParseTree} (h : tree.Gives env r) :
    (c.branch stop (.tier t) [tree, d.branch stop' (.repetition t) trees]).Gives env
      (r >>= fun l => groups env trees >>= fun found =>
        Valued.fold tree.unfolded.span l found) := by
  have hrepetition : (d.branch stop' (.repetition t) trees).unfolded =
      .repetition (.repetition t) ⟨d.offset, stop'.offset⟩
        (Unfolded.pairs (unfoldedAll trees)) := by
    have hrole : (Rule.repetition t).role = .repetition := rfl
    rw [Cursor.branch, unfolded, if_pos hrole]
  have hrole : (Rule.tier t).role ≠ .repetition := by simp [Rule.role]
  have hgives : (c.branch stop (.tier t) [tree, d.branch stop' (.repetition t) trees]).Gives env
      ((r >>= fun l => (groups env trees).map (l, ·)) >>= fun found =>
        Valued.fold tree.unfolded.span found.1 found.2) := by
    refine gives_branch _ (fun found => [tree.withValue found.1,
      ⟨(d.branch stop' (.repetition t) trees).unfolded, none, found.2⟩]) _ hrole ?_ ?_
    · simp only [unfoldedAll, Unfolded.valuedAll, reduceCtorEq, decide_false]
      rw [h, hrepetition, Unfolded.valued]
      simp only [reduceCtorEq, decide_false]
      change _ = (r >>= fun l => (groups env trees).map (l, ·)).map _
      cases r with
      | error failure => rfl
      | ok l =>
        change ((groups env trees >>= _) >>= _) >>= _ = _
        cases hgroups : groups env trees <;> rfl
    · rintro ⟨l, found⟩
      simp only [Valued.produce, Rule.role, Valued.tier, hrepetition]
      rfl
  cases r with
  | error failure => exact hgives
  | ok l =>
    cases hgroups : groups env trees with
    | error failure =>
      rw [hgroups] at hgives
      exact hgives
    | ok found =>
      rw [hgroups] at hgives
      exact hgives

/-- A tier without rounds passes the result of its operand on. -/
theorem gives_tier_nil {t : Tier} (h : tree.Gives env r) :
    (c.branch stop (.tier t) [tree, d.branch stop' (.repetition t) []]).Gives env r := by
  have htier : (c.branch stop (.tier t) [tree, d.branch stop' (.repetition t) []]).Gives env _ :=
    gives_tier h
  cases r <;> exact htier

end gives

end Reckon
