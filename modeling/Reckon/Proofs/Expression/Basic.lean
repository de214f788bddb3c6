import Reckon.Environment
import Reckon.Evaluation.Operators
import Reckon.Double.Decimal
import Reckon.Proofs.Grammar.Lexeme

/-!
Expressions as trees of operators, numbers and names, with their meaning by
structural recursion. Parentheses are no part of an expression.
-/

namespace Reckon

open Grammar

/-- A text that the grammar reads as one number. -/
structure NumberLiteral where
  text : String
  number?_eq : Lexeme.number? text.toList = some (text.toList, [])

/-- A text that the grammar reads as one name. -/
structure Name where
  text : String
  identifier?_eq : Lexeme.identifier? text.toList = some (text.toList, [])

def UnaryOperator.symbol : UnaryOperator → Symbol
  | plus => .plus
  | neg => .minus
  | increment => .increment
  | decrement => .decrement
  | not => .not

def BinaryOperator.symbol : BinaryOperator → Symbol
  | arithmetic .add => .add
  | arithmetic .sub => .sub
  | arithmetic .mul => .mul
  | arithmetic .div => .div
  | comparison .lt => .lt
  | comparison .le => .le
  | comparison .ge => .ge
  | comparison .gt => .gt
  | bitAnd => .bitwiseAnd
  | logical .and => .logicalAnd
  | logical .or => .logicalOr

def BinaryOperator.tier : BinaryOperator → Tier
  | arithmetic .add => .additive
  | arithmetic .sub => .additive
  | arithmetic .mul => .multiplicative
  | arithmetic .div => .multiplicative
  | comparison _ => .relational
  | bitAnd => .bitwiseAnd
  | logical .and => .logicalAnd
  | logical .or => .logicalOr

def UnaryOperator.text (op : UnaryOperator) : String := String.ofList op.symbol.text

def BinaryOperator.text (op : BinaryOperator) : String := String.ofList op.symbol.text

/-- An expression without its parentheses. -/
inductive Expr where
  | number (literal : NumberLiteral)
  | name (base : Name)
  | index (base : Name) (position : Expr)
  | unary (op : UnaryOperator) (operand : Expr)
  | binary (op : BinaryOperator) (left right : Expr)

/-- The value of a number: what its text is bound to, or else the integer or the double that it
denotes. -/
def NumberLiteral.value? (literal : NumberLiteral) (env : Environment) : Option Value :=
  env.get? literal.text <|>
    ((Text.int64? literal.text.toList).map .integer <|>
      (Double.ofText? literal.text.toList).map .double)

/-- The element of an array at an index, if they are that. -/
def Value.elementAt? : Value → Value → Option Value
  | array items, integer position => items.get? position
  | _, _ => none

namespace Expr

def value? (env : Environment) : Expr → Option Value
  | number literal => literal.value? env
  | name base => env.get? base.text
  | index base position => do
    let i ← position.value? env
    let items ← env.get? base.text
    items.elementAt? i
  | unary op operand => do
    let v ← operand.value? env
    (v.unary op.text).toOption
  | binary op left right => do
    let l ← left.value? env
    let r ← right.value? env
    (l.binary op.text r).toOption

/-- The meaning of an expression, in which the names of the truth values cannot be rebound. -/
def meaning (env : Environment) (e : Expr) : Option Value := e.value? env.withTruthValues

end Expr

end Reckon
