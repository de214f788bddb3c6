import Reckon.Environment
import Reckon.Evaluation.Operators
import Reckon.Syntax.Tree
import Reckon.Syntax.Walk
import Reckon.Text.Basic

/-!
Evaluation of a syntax tree: one post-order walk that keeps the value of every
entry it has visited. The value of an entry is found from those of the entries
before it. Operators and repetitions have none; a tier reads its operands
through its repetition. A token counts as a number when the parent linked to it
is one.
-/

namespace Reckon.Evaluation

/-- The failure to have a value where one is needed. -/
def missing (t : SyntaxTree) (id : Place) : EvaluationError :=
  match t.get? id with
  | none => ⟨.missingValue .endOfInput, .whole t.source⟩
  | some e =>
    match e.rule, e.shape with
    | .identifier, .token name => ⟨.undefinedVariable name, e.span⟩
    | rule, _ => ⟨.missingValue rule, e.span⟩

/-- The failure of an entry to have the shape that its rule requires. -/
def malformed (e : Entry) (fault : ShapeFault) : EvaluationError :=
  ⟨.malformedTree e.rule fault, e.span⟩

def required (t : SyntaxTree) (value? : Place → Option Value) (id : Place) :
    Except EvaluationError Value :=
  match value? id with
  | some v => .ok v
  | none => .error (missing t id)

/-- The symbol of an operator entry, which is the text of its only child. -/
def symbolOf (t : SyntaxTree) (id : Place) : Except EvaluationError String :=
  match t.get? id with
  | none => .error (missing t id)
  | some e =>
    if e.rule.isOperator then
      match e.shape with
      | .node [token] =>
        match (t.get? token).bind Entry.text? with
        | some symbol => .ok symbol
        | none => .error (malformed e .symbol)
      | _ => .error (malformed e .symbol)
    else .error (malformed e .operator)

/-- The value of a token: what its text is bound to, or the number it denotes when it stands
for a number. -/
def token (env : Environment) (isNumber : Bool) (e : Entry) (text : String) :
    Except EvaluationError (Option Value) :=
  match env.get? text with
  | some v => .ok (some v)
  | none =>
    if isNumber then
      let literal := Text.trim text.toList
      match (Text.int64? literal).map Value.integer <|> (Double.ofText? literal).map .double with
      | some v => .ok (some v)
      | none => .error ⟨.malformedNumber text, e.span⟩
    else .ok none

/-- The value of an array at an index. The index is judged before the array. -/
def indexed (t : SyntaxTree) (value? : Place → Option Value) (e : Entry)
    (base index : Place) : Except EvaluationError Value :=
  match required t value? index with
  | .error failure => .error failure
  | .ok (.integer position) =>
    match required t value? base with
    | .error failure => .error failure
    | .ok (.array items) =>
      match items.get? position with
      | some v => .ok v
      | none => .error ⟨.indexOutOfBounds position items.size, e.span⟩
    | .ok v => .error ⟨.notAnArray v.type, t.spanOf base⟩
  | .ok v => .error ⟨.indexNotInteger v.type, t.spanOf index⟩

/-- The groups of a repetition applied from left to right. A failure spans from the first
operand to the one at fault. -/
def fold (t : SyntaxTree) (value? : Place → Option Value) (left : Span) :
    Value → List OperatorGroup → Except EvaluationError Value
  | result, [] => .ok result
  | result, group :: rest =>
    match symbolOf t group.operator with
    | .error failure => .error failure
    | .ok symbol =>
      match required t value? group.operand with
      | .error failure => .error failure
      | .ok operand =>
        match result.binary symbol operand with
        | .error cause => .error ⟨cause, left.combine (t.spanOf group.operand)⟩
        | .ok result => fold t value? left result rest

/-- The value of a tier from its first operand and its repetition. -/
def tier (t : SyntaxTree) (value? : Place → Option Value) (left many : Place) :
    Except EvaluationError Value :=
  match required t value? left with
  | .error failure => .error failure
  | .ok first =>
    match t.get? many with
    | none => .error (missing t many)
    | some e =>
      match e.shape with
      | .repetition groups => fold t value? (t.spanOf left) first groups
      | _ => .error (malformed e .repetition)

def unary (t : SyntaxTree) (value? : Place → Option Value) (e : Entry)
    (operator operand : Place) : Except EvaluationError Value :=
  match symbolOf t operator with
  | .error failure => .error failure
  | .ok symbol =>
    match required t value? operand with
    | .error failure => .error failure
    | .ok v =>
      match v.unary symbol with
      | .error cause => .error ⟨cause, e.span⟩
      | .ok result => .ok result

/-- The value of an entry with a fixed row of children. An only child passes its value on,
except below an operator. -/
def node (t : SyntaxTree) (value? : Place → Option Value) (e : Entry)
    (children : List Place) : Except EvaluationError (Option Value) :=
  match e.rule.role, children with
  | .operator, _ => .ok none
  | _, [only] => some <$> required t value? only
  | .primary, [_, inner, _] => some <$> required t value? inner
  | .primary, [base, _, index, _] => some <$> indexed t value? e base index
  | .primary, _ => .error (malformed e .childCount)
  | .unaryPrimary, [operator, operand] => some <$> unary t value? e operator operand
  | .unaryPrimary, _ => .error (malformed e .operatorAndOperand)
  | .binaryTier, [left, many] => some <$> tier t value? left many
  | .binaryTier, _ => .error (malformed e .operandAndRepetition)
  | _, _ => .ok none

def entry (t : SyntaxTree) (env : Environment) (isNumber : Bool)
    (value? : Place → Option Value) (e : Entry) : Except EvaluationError (Option Value) :=
  match e.shape with
  | .token text => token env isNumber e text
  | .node children => node t value? e children
  | .repetition _ => .ok none

/-- The values of the entries visited so far, by place. -/
abbrev Memo := Array (Option Value)

def Memo.value? (memo : Memo) (id : Place) : Option Value := memo.getD id none

/-- Evaluates one entry from the values kept, and keeps its value. -/
def visit (t : SyntaxTree) (env : Environment) (links : Parents) (memo : Memo)
    (id : Place) : Except EvaluationError Memo :=
  match t.get? id with
  | none => .error (missing t id)
  | some e =>
    match entry t env (links.parentRule? t id = some .number) memo.value? e with
    | .error failure => .error failure
    | .ok v => .ok (memo.setIfInBounds id v)

/-- The value of the root of a tree. The names of the truth values cannot be rebound. -/
def evaluate (t : SyntaxTree) (env : Environment) : Except EvaluationError Value :=
  let links := Parents.ofTree t
  let memo := Array.replicate t.size none
  match t.table.walk t.root (visit t env.withTruthValues links) memo with
  | .error failure => .error failure
  | .ok memo => required t (Memo.value? memo) t.root

end Reckon.Evaluation
