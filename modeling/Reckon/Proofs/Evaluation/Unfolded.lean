import Reckon.Proofs.Evaluation.Recursion
import Reckon.Proofs.Syntax.Parents

/-!
Evaluation of a tree that shares nothing, by structural recursion: all children
from left to right, and then what the rule of the tree makes of their values. A
table stands for such a tree by its unfolding, and the walk with its memo gives
what the recursion gives on it, failures included. A token is told by its
parent whether it counts as a number, where the memo asks the parent links, so
the two agree when the parents of every token agree about it.
-/

namespace Reckon

/-- A syntax tree whose entries hold their children themselves. What a table shares stands here
once for each way to it; a reference that leads out of the table keeps the span of the source. -/
inductive Unfolded where
  | missing (whole : Span)
  | token (rule : Rule) (span : Span) (text : String)
  | node (rule : Rule) (span : Span) (children : List Unfolded)
  | repetition (rule : Rule) (span : Span) (groups : List (Unfolded × Unfolded))

/-- A tree that has been evaluated: its value if it has one, and the groups of a repetition, each
an operator with its evaluated operand. -/
structure Valued where
  tree : Unfolded
  value? : Option Value
  groups : List (Unfolded × Valued)

namespace Unfolded

def rule : Unfolded → Rule
  | missing _ => .endOfInput
  | token rule _ _ => rule
  | node rule _ _ => rule
  | repetition rule _ _ => rule

def span : Unfolded → Span
  | missing whole => whole
  | token _ span _ => span
  | node _ span _ => span
  | repetition _ span _ => span

/-- The failure to have a value where one is needed. -/
def valueless : Unfolded → EvaluationError
  | token .identifier span name => ⟨.undefinedVariable name, span⟩
  | u => ⟨.missingValue u.rule, u.span⟩

def malformed (u : Unfolded) (fault : ShapeFault) : EvaluationError :=
  ⟨.malformedTree u.rule fault, u.span⟩

def text? : Unfolded → Option String
  | token _ _ text => some text
  | _ => none

/-- The symbol of an operator, which is the text of its only child. -/
def symbol (u : Unfolded) : Except EvaluationError String :=
  match u with
  | missing _ => .error u.valueless
  | node rule _ [only] =>
    if rule.isOperator then
      match only.text? with
      | some text => .ok text
      | none => .error (u.malformed .symbol)
    else .error (u.malformed .operator)
  | _ =>
    if u.rule.isOperator then .error (u.malformed .symbol) else .error (u.malformed .operator)

end Unfolded

namespace Valued

def required (evaluated : Valued) : Except EvaluationError Value :=
  match evaluated.value? with
  | some v => .ok v
  | none => .error evaluated.tree.valueless

/-- The element of an array at an index. The index is judged before the array. -/
def indexed (whole : Span) (base index : Valued) : Except EvaluationError Value := do
  match ← index.required with
  | .integer position =>
    match ← base.required with
    | .array items =>
      match items.get? position with
      | some v => .ok v
      | none => .error ⟨.indexOutOfBounds position items.size, whole⟩
    | v => .error ⟨.notAnArray v.type, base.tree.span⟩
  | v => .error ⟨.indexNotInteger v.type, index.tree.span⟩

def unary (whole : Span) (operator operand : Valued) : Except EvaluationError Value := do
  let symbol ← operator.tree.symbol
  let v ← operand.required
  match v.unary symbol with
  | .error cause => .error ⟨cause, whole⟩
  | .ok result => .ok result

/-- Groups applied to a value from left to right. A failure spans from the first operand to the
one at fault. -/
def fold (left : Span) : Value → List (Unfolded × Valued) → Except EvaluationError Value
  | result, [] => .ok result
  | result, (operator, operand) :: rest => do
    let symbol ← operator.symbol
    let v ← operand.required
    match result.binary symbol v with
    | .error cause => .error ⟨cause, left.combine operand.tree.span⟩
    | .ok result => fold left result rest

def tier (left many : Valued) : Except EvaluationError Value := do
  let first ← left.required
  match many.tree with
  | .missing _ => .error many.tree.valueless
  | .repetition _ _ _ => fold left.tree.span first many.groups
  | _ => .error (many.tree.malformed .repetition)

/-- What a rule makes of its evaluated children. An only child passes its value on, except below
an operator. -/
def produce (rule : Rule) (whole : Span) (children : List Valued) :
    Except EvaluationError (Option Value) :=
  let malformed fault : EvaluationError := ⟨.malformedTree rule fault, whole⟩
  match rule.role, children with
  | .operator, _ => .ok none
  | _, [only] => some <$> only.required
  | .primary, [_, inner, _] => some <$> inner.required
  | .primary, [base, _, index, _] => some <$> indexed whole base index
  | .primary, _ => .error (malformed .childCount)
  | .unaryPrimary, [operator, operand] => some <$> unary whole operator operand
  | .unaryPrimary, _ => .error (malformed .operatorAndOperand)
  | .binaryTier, [left, many] => some <$> tier left many
  | .binaryTier, _ => .error (malformed .operandAndRepetition)
  | _, _ => .ok none

end Valued

namespace Unfolded

mutual

/-- Evaluates a tree: the children in order up to the first failure, then the tree itself. The
flag says whether a number stands above it. -/
def valued (env : Environment) (isNumber : Bool) : Unfolded → Except EvaluationError Valued
  | missing whole => .error (missing whole).valueless
  | token rule span text => do
    let value? ← Evaluation.token env isNumber ⟨rule, span, .token text⟩ text
    return ⟨token rule span text, value?, []⟩
  | node rule span children => do
    let evaluated ← valuedAll env (rule = .number) children
    let value? ← Valued.produce rule span evaluated
    return ⟨node rule span children, value?, []⟩
  | repetition rule span groups => do
    let evaluated ← valuedGroups env (rule = .number) groups
    return ⟨repetition rule span groups, none, evaluated⟩

def valuedAll (env : Environment) (isNumber : Bool) :
    List Unfolded → Except EvaluationError (List Valued)
  | [] => .ok []
  | u :: us => do
    let first ← valued env isNumber u
    let rest ← valuedAll env isNumber us
    return first :: rest

def valuedGroups (env : Environment) (isNumber : Bool) :
    List (Unfolded × Unfolded) → Except EvaluationError (List (Unfolded × Valued))
  | [] => .ok []
  | (operator, operand) :: groups => do
    let _ ← valued env isNumber operator
    let evaluated ← valued env isNumber operand
    let rest ← valuedGroups env isNumber groups
    return (operator, evaluated) :: rest

end

/-- The value of a tree as a whole. The names of the truth values cannot be rebound. -/
def evaluate (u : Unfolded) (env : Environment) : Except EvaluationError Value := do
  let evaluated ← u.valued env.withTruthValues false
  evaluated.required

end Unfolded

namespace SyntaxTree

/-- What stands at a place of a tree, with nothing shared. -/
def unfolded (t : SyntaxTree) (id : Place) : Unfolded :=
  match _h : t.get? id with
  | none => .missing (.whole t.source)
  | some e =>
    match _hshape : e.shape with
    | .token text => .token e.rule e.span text
    | .node children =>
      .node e.rule e.span (children.attach.map fun child => t.unfolded child.1)
    | .repetition groups =>
      .repetition e.rule e.span
        (groups.attach.map fun g => (t.unfolded g.1.operator, t.unfolded g.1.operand))
termination_by id
decreasing_by
  all_goals
    apply EntryTable.lt_of_mem_children (t := t.table)
    change _ ∈ t.children id
    rw [Evaluation.children_of_get? _h, Entry.children, _hshape]
  · exact child.2
  · exact List.mem_flatMap.mpr ⟨g.1, g.2, by simp⟩
  · exact List.mem_flatMap.mpr ⟨g.1, g.2, by simp⟩

variable {t : SyntaxTree} {id : Place}

theorem unfolded_missing (h : t.get? id = none) : t.unfolded id = .missing (.whole t.source) := by
  rw [unfolded]
  split
  · rfl
  · next h' => rw [h] at h'; cases h'

theorem unfolded_entry {e : Entry} (h : t.get? id = some e) :
    t.unfolded id =
      match e.shape with
      | .token text => .token e.rule e.span text
      | .node children => .node e.rule e.span (children.map t.unfolded)
      | .repetition groups => .repetition e.rule e.span
          (groups.map fun g => (t.unfolded g.operator, t.unfolded g.operand)) := by
  rw [unfolded]
  split
  · next h' => rw [h] at h'; cases h'
  · next e' h' =>
    rw [h] at h'
    cases h'
    split <;> simp_all

theorem unfolded_token {rule : Rule} {span : Span} {text : String}
    (h : t.get? id = some ⟨rule, span, .token text⟩) : t.unfolded id = .token rule span text :=
  unfolded_entry h

theorem unfolded_node {rule : Rule} {span : Span} {children : List Place}
    (h : t.get? id = some ⟨rule, span, .node children⟩) :
    t.unfolded id = .node rule span (children.map t.unfolded) :=
  unfolded_entry h

theorem unfolded_repetition {rule : Rule} {span : Span} {groups : List OperatorGroup}
    (h : t.get? id = some ⟨rule, span, .repetition groups⟩) :
    t.unfolded id = .repetition rule span
      (groups.map fun g => (t.unfolded g.operator, t.unfolded g.operand)) :=
  unfolded_entry h

end SyntaxTree

/-- The children of a place that is visited are visited. -/
theorem EntryTable.mem_unfolding_of_mem_children {t : EntryTable} {root id child : Place}
    (hid : id ∈ t.unfolding root) (hchild : child ∈ t.children id) :
    child ∈ t.unfolding root :=
  (t.unfolding_perm root).mem_iff.mpr
    (List.mem_append_left _ (List.mem_flatMap.mpr ⟨id, hid, hchild⟩))

namespace Evaluation

variable {t : SyntaxTree} {env : Environment} {isNumber : Place → Bool} {id : Place}

theorem rule_unfolded {e : Entry} (h : t.get? id = some e) : (t.unfolded id).rule = e.rule := by
  rw [SyntaxTree.unfolded_entry h]
  cases e.shape <;> rfl

theorem span_unfolded : (t.unfolded id).span = t.spanOf id := by
  cases h : t.get? id with
  | none => simp only [SyntaxTree.unfolded_missing h, SyntaxTree.spanOf, h, Unfolded.span]
  | some e =>
    simp only [SyntaxTree.unfolded_entry h, SyntaxTree.spanOf, h]
    cases e.shape <;> rfl

theorem valueless_unfolded : (t.unfolded id).valueless = missing t id := by
  cases h : t.get? id with
  | none => simp only [SyntaxTree.unfolded_missing h, missing, h]; rfl
  | some e =>
    obtain ⟨rule, span, shape⟩ := e
    simp only [SyntaxTree.unfolded_entry h, missing, h]
    cases shape with
    | token text => cases rule <;> rfl
    | node children => cases rule <;> rfl
    | repetition groups => cases rule <;> rfl

theorem malformed_unfolded {e : Entry} (h : t.get? id = some e) (fault : ShapeFault) :
    (t.unfolded id).malformed fault = malformed e fault := by
  rw [Unfolded.malformed, rule_unfolded h, span_unfolded, SyntaxTree.spanOf, h]
  rfl

theorem text?_unfolded : (t.unfolded id).text? = (t.get? id).bind Entry.text? := by
  cases h : t.get? id with
  | none => rw [SyntaxTree.unfolded_missing h]; rfl
  | some e =>
    rw [SyntaxTree.unfolded_entry h]
    obtain ⟨rule, span, shape⟩ := e
    cases shape <;> rfl

theorem symbol_unfolded : (t.unfolded id).symbol = symbolOf t id := by
  cases h : t.get? id with
  | none =>
    simp only [symbolOf, h, ← valueless_unfolded]
    rw [SyntaxTree.unfolded_missing h]
    rfl
  | some e =>
    obtain ⟨rule, span, shape⟩ := e
    simp only [symbolOf, h]
    match shape with
    | .token text => rw [SyntaxTree.unfolded_token h]; rfl
    | .repetition groups => rw [SyntaxTree.unfolded_repetition h]; rfl
    | .node [] => rw [SyntaxTree.unfolded_node h]; rfl
    | .node (_ :: _ :: _) => rw [SyntaxTree.unfolded_node h]; rfl
    | .node [child] =>
      rw [SyntaxTree.unfolded_node h]
      simp only [List.map, Unfolded.symbol, text?_unfolded]
      rfl

/-- An evaluated tree is what stands at a place, with the values that recursion finds there. -/
structure Finds (t : SyntaxTree) (env : Environment) (isNumber : Place → Bool) (id : Place)
    (found : Valued) : Prop where
  tree : found.tree = t.unfolded id
  value : found.value? = value? t env isNumber id
  groups : ∀ rule span groups, t.get? id = some ⟨rule, span, .repetition groups⟩ →
    List.Forall₂ (fun g operands => g.1 = t.unfolded operands.operator ∧
        g.2.tree = t.unfolded operands.operand ∧
        g.2.value? = value? t env isNumber operands.operand) found.groups groups

theorem required_eq {found : Valued} (htree : found.tree = t.unfolded id)
    (hvalue : found.value? = value? t env isNumber id) :
    found.required = required t (value? t env isNumber) id := by
  cases hfound : value? t env isNumber id with
  | some v => simp only [Valued.required, required, hvalue, hfound]
  | none => simp only [Valued.required, required, htree, hvalue, hfound, valueless_unfolded]

theorem Finds.required_eq {found : Valued} (h : Finds t env isNumber id found) :
    found.required = required t (value? t env isNumber) id :=
  Evaluation.required_eq h.tree h.value

theorem Finds.indexed_eq {base index : Valued} {baseId indexId : Place} {e : Entry}
    (hbase : Finds t env isNumber baseId base) (hindex : Finds t env isNumber indexId index) :
    Valued.indexed e.span base index = indexed t (value? t env isNumber) e baseId indexId := by
  rw [Valued.indexed, indexed, hbase.required_eq, hindex.required_eq, hbase.tree, hindex.tree,
    span_unfolded, span_unfolded]
  cases required t (value? t env isNumber) indexId with
  | error failure => rfl
  | ok i =>
    cases i with
    | integer position =>
      cases required t (value? t env isNumber) baseId with
      | error failure => rfl
      | ok v => cases v <;> rfl
    | _ => rfl

theorem Finds.unary_eq {operator operand : Valued} {operatorId operandId : Place} {e : Entry}
    (hoperator : Finds t env isNumber operatorId operator)
    (hoperand : Finds t env isNumber operandId operand) :
    Valued.unary e.span operator operand =
      unary t (value? t env isNumber) e operatorId operandId := by
  rw [Valued.unary, unary, hoperator.tree, symbol_unfolded, hoperand.required_eq]
  cases symbolOf t operatorId with
  | error failure => rfl
  | ok symbol =>
    cases required t (value? t env isNumber) operandId with
    | error failure => rfl
    | ok v => rfl

theorem fold_eq {found : List (Unfolded × Valued)} {groups : List OperatorGroup}
    (h : List.Forall₂ (fun g operands => g.1 = t.unfolded operands.operator ∧
      g.2.tree = t.unfolded operands.operand ∧
      g.2.value? = value? t env isNumber operands.operand) found groups) (left : Span)
    (result : Value) :
    Valued.fold left result found = fold t (value? t env isNumber) left result groups := by
  induction h generalizing result with
  | nil => rfl
  | @cons g operands _ _ hg _ ih =>
    obtain ⟨operator, operand⟩ := g
    obtain ⟨hoperator, htree, hvalue⟩ := hg
    simp only at hoperator htree hvalue
    rw [Valued.fold, fold, hoperator, symbol_unfolded, Evaluation.required_eq htree hvalue, htree,
      span_unfolded]
    cases symbolOf t operands.operator with
    | error failure => rfl
    | ok symbol =>
      cases required t (value? t env isNumber) operands.operand with
      | error failure => rfl
      | ok v =>
        simp only [bind, Except.bind]
        cases result.binary symbol v with
        | error cause => rfl
        | ok result' => exact ih result'

theorem Finds.tier_eq {left many : Valued} {leftId manyId : Place}
    (hleft : Finds t env isNumber leftId left) (hmany : Finds t env isNumber manyId many) :
    Valued.tier left many = tier t (value? t env isNumber) leftId manyId := by
  rw [Valued.tier, tier, hleft.required_eq, hleft.tree, hmany.tree, span_unfolded]
  cases required t (value? t env isNumber) leftId with
  | error failure => rfl
  | ok first =>
    simp only [bind, Except.bind]
    cases h : t.get? manyId with
    | none =>
      simp only [← valueless_unfolded, SyntaxTree.unfolded_missing h]
    | some e =>
      have hmalformed := malformed_unfolded h .repetition
      obtain ⟨rule, span, shape⟩ := e
      cases shape with
      | token text =>
        rw [SyntaxTree.unfolded_token h] at hmalformed ⊢
        exact congrArg Except.error hmalformed
      | node children =>
        rw [SyntaxTree.unfolded_node h] at hmalformed ⊢
        exact congrArg Except.error hmalformed
      | repetition groups =>
        rw [SyntaxTree.unfolded_repetition h]
        exact fold_eq (hmany.groups rule span groups h) _ first

/-- A rule makes of evaluated children what it makes of their places. -/
theorem produce_eq {found : List Valued} {ids : List Place}
    (h : List.Forall₂ (fun f id => Finds t env isNumber id f) found ids) (rule : Rule)
    (span : Span) :
    Valued.produce rule span found =
      node t (value? t env isNumber) ⟨rule, span, .node ids⟩ ids := by
  cases h with
  | nil => cases hrole : rule.role <;> simp [Valued.produce, node, malformed, hrole]
  | cons ha h =>
    cases h with
    | nil =>
      cases hrole : rule.role <;> simp [Valued.produce, node, hrole, ha.required_eq]
    | cons hb h =>
      cases h with
      | nil =>
        cases hrole : rule.role <;> simp [Valued.produce, node, malformed, hrole, ha.tier_eq hb,
          ← Finds.unary_eq (e := ⟨rule, span, .node _⟩) ha hb]
      | cons hc h =>
        cases h with
        | nil =>
          cases hrole : rule.role <;> simp [Valued.produce, node, malformed, hrole,
            hb.required_eq]
        | cons hd h =>
          cases h with
          | nil =>
            cases hrole : rule.role <;> simp [Valued.produce, node, malformed, hrole,
              ← Finds.indexed_eq (e := ⟨rule, span, .node _⟩) ha hc]
          | cons he h =>
            cases hrole : rule.role <;> simp [Valued.produce, node, malformed, hrole]

/-- At a place the recursion over the table and the one on the unfolded tree fail alike, or find
the same. -/
def Meets (t : SyntaxTree) (env : Environment) (isNumber : Place → Bool) (flag : Bool)
    (id : Place) : Prop :=
  (∃ failure, recursive t env isNumber id = .error failure ∧
      (t.unfolded id).valued env flag = .error failure) ∨
    ∃ v found, recursive t env isNumber id = .ok v ∧
      (t.unfolded id).valued env flag = .ok found ∧ Finds t env isNumber id found

/-- Places in a row, given what is found at each of them. -/
private theorem valuedAll_eq {flag : Bool} {ids : List Place}
    (h : ∀ id ∈ ids, Meets t env isNumber flag id) :
    (∃ failure, ids.mapM (recursive t env isNumber) = .error failure ∧
        Unfolded.valuedAll env flag (ids.map t.unfolded) = .error failure) ∨
      ∃ vs found, ids.mapM (recursive t env isNumber) = .ok vs ∧
        Unfolded.valuedAll env flag (ids.map t.unfolded) = .ok found ∧
        List.Forall₂ (fun f id => Finds t env isNumber id f) found ids := by
  induction ids with
  | nil => exact .inr ⟨[], [], rfl, rfl, .nil⟩
  | cons id ids ih =>
    rw [List.mapM_cons, List.map_cons, Unfolded.valuedAll]
    rcases h id List.mem_cons_self with ⟨failure, hrecursive, hvalued⟩ |
      ⟨v, found, hrecursive, hvalued, hfinds⟩
    · exact .inl ⟨failure, by rw [hrecursive]; rfl, by rw [hvalued]; rfl⟩
    · rw [hrecursive, hvalued]
      rcases ih fun id' hid' => h id' (List.mem_cons_of_mem _ hid') with
        ⟨failure, hmap, hall⟩ | ⟨vs, rest, hmap, hall, hrest⟩
      · exact .inl ⟨failure, by rw [hmap]; rfl, by rw [hall]; rfl⟩
      · exact .inr ⟨v :: vs, found :: rest, by rw [hmap]; rfl, by rw [hall]; rfl,
          .cons hfinds hrest⟩

/-- Groups, given what is found at each of their places. -/
private theorem valuedGroups_eq {flag : Bool} {groups : List OperatorGroup}
    (h : ∀ id ∈ (Shape.repetition groups).children, Meets t env isNumber flag id) :
    (∃ failure, (Shape.repetition groups).children.mapM (recursive t env isNumber) =
          .error failure ∧
        Unfolded.valuedGroups env flag
          (groups.map fun g => (t.unfolded g.operator, t.unfolded g.operand)) = .error failure) ∨
      ∃ vs found, (Shape.repetition groups).children.mapM (recursive t env isNumber) = .ok vs ∧
        Unfolded.valuedGroups env flag
          (groups.map fun g => (t.unfolded g.operator, t.unfolded g.operand)) = .ok found ∧
        List.Forall₂ (fun g operands => g.1 = t.unfolded operands.operator ∧
          g.2.tree = t.unfolded operands.operand ∧
          g.2.value? = value? t env isNumber operands.operand) found groups := by
  induction groups with
  | nil => exact .inr ⟨[], [], rfl, rfl, .nil⟩
  | cons g groups ih =>
    have hchildren : (Shape.repetition (g :: groups)).children =
        g.operator :: g.operand :: (Shape.repetition groups).children := rfl
    rw [hchildren] at h ⊢
    rw [List.mapM_cons, List.mapM_cons, List.map_cons, Unfolded.valuedGroups]
    rcases h g.operator (by simp) with ⟨failure, hrecursive, hvalued⟩ |
      ⟨v, found, hrecursive, hvalued, -⟩
    · exact .inl ⟨failure, by rw [hrecursive]; rfl, by rw [hvalued]; rfl⟩
    rw [hrecursive, hvalued]
    rcases h g.operand (by simp) with ⟨failure, hrecursive', hvalued'⟩ |
      ⟨v', found', hrecursive', hvalued', hfinds⟩
    · exact .inl ⟨failure, by rw [hrecursive']; rfl, by rw [hvalued']; rfl⟩
    rw [hrecursive', hvalued']
    rcases ih fun id hid => h id (List.mem_cons_of_mem _ (List.mem_cons_of_mem _ hid)) with
      ⟨failure, hmap, hall⟩ | ⟨vs, rest, hmap, hall, hrest⟩
    · exact .inl ⟨failure, by rw [hmap]; rfl, by rw [hall]; rfl⟩
    · exact .inr ⟨v :: v' :: vs, (t.unfolded g.operator, found') :: rest, by rw [hmap]; rfl,
        by rw [hall]; rfl, .cons ⟨rfl, hfinds.tree, hfinds.value⟩ hrest⟩

theorem meets_missing {flag : Bool} (h : t.get? id = none) : Meets t env isNumber flag id := by
  refine .inl ⟨missing t id, by rw [recursive_eq, h], ?_⟩
  rw [← valueless_unfolded, SyntaxTree.unfolded_missing h]
  rfl

/-- An entry that is no repetition has been found when its value has. -/
theorem Finds.of_value {e : Entry} {v : Option Value} (h : t.get? id = some e)
    (hshape : ∀ groups, e.shape ≠ .repetition groups)
    (hv : recursive t env isNumber id = .ok v) :
    Finds t env isNumber id ⟨t.unfolded id, v, []⟩ where
  tree := rfl
  value := by rw [value?, hv]; rfl
  groups := by
    intro rule span groups hgroups
    cases h.symm.trans hgroups
    exact absurd rfl (hshape groups)

theorem meets_token {rule : Rule} {span : Span} {text : String}
    (h : t.get? id = some ⟨rule, span, .token text⟩) : Meets t env isNumber (isNumber id) id := by
  have hvalued : (t.unfolded id).valued env (isNumber id) = do
      let v ← token env (isNumber id) ⟨rule, span, .token text⟩ text
      return ⟨t.unfolded id, v, []⟩ := by
    rw [SyntaxTree.unfolded_token h, Unfolded.valued]
  have hrecursive : recursive t env isNumber id = _ := recursive_token h
  rw [Meets, hvalued]
  cases htoken : token env (isNumber id) ⟨rule, span, .token text⟩ text with
  | error failure => exact .inl ⟨failure, hrecursive.trans htoken, rfl⟩
  | ok v =>
    have hv := hrecursive.trans htoken
    exact .inr ⟨v, _, hv, rfl, .of_value h nofun hv⟩

theorem meets_node {flag : Bool} {rule : Rule} {span : Span} {ids : List Place}
    (h : t.get? id = some ⟨rule, span, .node ids⟩)
    (hchild : ∀ child ∈ ids, Meets t env isNumber (rule = .number) child) :
    Meets t env isNumber flag id := by
  have hvalued : (t.unfolded id).valued env flag = do
      let found ← Unfolded.valuedAll env (rule = .number) (ids.map t.unfolded)
      let v ← Valued.produce rule span found
      return ⟨t.unfolded id, v, []⟩ := by
    rw [SyntaxTree.unfolded_node h, Unfolded.valued]
  have hrecursive : recursive t env isNumber id = _ := recursive_node h
  rw [Meets, hvalued]
  rcases valuedAll_eq hchild with ⟨failure, hmap, hall⟩ | ⟨vs, found, hmap, hall, hfound⟩
  · rw [hmap] at hrecursive
    exact .inl ⟨failure, hrecursive, by rw [hall]; rfl⟩
  · rw [hmap] at hrecursive
    simp only [hall, bind, Except.bind, produce_eq hfound]
    cases hnode : node t (value? t env isNumber) ⟨rule, span, .node ids⟩ ids with
    | error failure => exact .inl ⟨failure, hrecursive.trans hnode, rfl⟩
    | ok v =>
      have hv := hrecursive.trans hnode
      exact .inr ⟨v, _, hv, rfl, .of_value h nofun hv⟩

theorem meets_repetition {flag : Bool} {rule : Rule} {span : Span} {groups : List OperatorGroup}
    (h : t.get? id = some ⟨rule, span, .repetition groups⟩)
    (hchild : ∀ child ∈ (Shape.repetition groups).children,
      Meets t env isNumber (rule = .number) child) :
    Meets t env isNumber flag id := by
  have hvalued : (t.unfolded id).valued env flag = do
      let found ← Unfolded.valuedGroups env (rule = .number)
        (groups.map fun g => (t.unfolded g.operator, t.unfolded g.operand))
      return ⟨t.unfolded id, none, found⟩ := by
    rw [SyntaxTree.unfolded_repetition h, Unfolded.valued]
  have hrecursive : recursive t env isNumber id = _ := recursive_repetition h
  rw [Meets, hvalued]
  rcases valuedGroups_eq hchild with ⟨failure, hmap, hall⟩ | ⟨vs, found, hmap, hall, hfound⟩
  · rw [hmap] at hrecursive
    exact .inl ⟨failure, hrecursive, by rw [hall]; rfl⟩
  · rw [hmap] at hrecursive
    refine .inr ⟨none, _, hrecursive, by rw [hall]; rfl, rfl, by rw [value?, hrecursive]; rfl, ?_⟩
    intro rule' span' groups' hgroups
    cases h.symm.trans hgroups
    exact hfound

/-- The two recursions meet at every place that is visited, where tokens count as numbers by
the entries above them. -/
theorem meets {root : Place}
    (hflag : ∀ p ∈ t.table.unfolding root, ∀ e, t.get? p = some e → ∀ child ∈ e.children,
      ((t.get? child).bind Entry.text?).isSome → isNumber child = decide (e.rule = .number))
    (hid : id ∈ t.table.unfolding root) (flag : Bool)
    (h : ((t.get? id).bind Entry.text?).isSome → isNumber id = flag) :
    Meets t env isNumber flag id := by
  induction id using Nat.strongRecOn generalizing flag with
  | _ id ih =>
    cases hentry : t.get? id with
    | none => exact meets_missing hentry
    | some e =>
      have hchild : ∀ child ∈ e.children, Meets t env isNumber (e.rule = .number) child := by
        intro child hmem
        have hchildren : child ∈ t.children id := by rwa [children_of_get? hentry]
        exact ih child (EntryTable.lt_of_mem_children hchildren)
          (EntryTable.mem_unfolding_of_mem_children hid hchildren) _
          (hflag id hid e hentry child hmem)
      obtain ⟨rule, span, shape⟩ := e
      cases shape with
      | token text =>
        have hnumber : isNumber id = flag := h (by rw [hentry]; rfl)
        exact hnumber ▸ meets_token hentry
      | node ids => exact meets_node hentry hchild
      | repetition groups => exact meets_repetition hentry hchild

end Evaluation

end Reckon
