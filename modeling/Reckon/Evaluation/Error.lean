import Reckon.Grammar.Rule
import Reckon.Text.Basic
import Reckon.Value.Basic

/-!
Failures of evaluation. Each is a cause with the span of the source to which it
belongs; the first failure ends an evaluation.
-/

namespace Reckon

/-- What a tree lacks that the role of one of its entries requires. -/
inductive ShapeFault where
  | operatorAndOperand
  | operandAndRepetition
  | childCount
  | repetition
  | operator
  | symbol
deriving DecidableEq

/-- Why an entry has no value. The last two concern trees that no source text has. -/
inductive EvaluationCause where
  | malformedNumber (text : String)
  | unsupportedOperator (symbol : String) (operand : ValueType)
  | operandMismatch (symbol : String) (left right : ValueType)
  | indexNotInteger (found : ValueType)
  | notAnArray (found : ValueType)
  | indexOutOfBounds (index : Int64) (size : Nat)
  | undefinedVariable (name : String)
  | missingValue (rule : Rule)
  | malformedTree (rule : Rule) (fault : ShapeFault)
deriving DecidableEq

structure EvaluationError where
  cause : EvaluationCause
  span : Span
deriving DecidableEq

namespace ShapeFault

def reason : ShapeFault → String
  | operatorAndOperand => "expected operator and operand"
  | operandAndRepetition => "expected operand and repetition"
  | childCount => "unexpected number of children"
  | repetition => "expected a repetition"
  | operator => "expected an operator"
  | symbol => "operator without a symbol"

end ShapeFault

namespace EvaluationCause

def message : EvaluationCause → String
  | malformedNumber text => "Malformed numeric literal '" ++ text ++ "'"
  | unsupportedOperator symbol operand =>
    "Unsupported operator '" ++ symbol ++ "' for " ++ operand.name
  | operandMismatch symbol left right =>
    "Operator '" ++ symbol ++ "' cannot combine " ++ left.name ++ " with " ++ right.name
  | indexNotInteger found => "Array index is not an integer (found " ++ found.name ++ ")"
  | notAnArray found => "Variable is not an array (found " ++ found.name ++ ")"
  | indexOutOfBounds index size =>
    "Index " ++ String.ofList (Text.signedDecimal index.toInt) ++ " out of bounds (length: " ++
      toString size ++ ")"
  | undefinedVariable name => "Undefined variable '" ++ name ++ "'"
  | missingValue rule => "Missing value for " ++ rule.name
  | malformedTree rule fault => "Malformed " ++ rule.name ++ " node: " ++ fault.reason

end EvaluationCause

end Reckon
