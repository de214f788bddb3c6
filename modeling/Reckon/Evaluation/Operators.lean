import Reckon.Evaluation.Error

/-!
The operators between two operands, the operators before one, the texts that
denote them, and their meaning on values. The type of the left operand, or of
the only one, decides which operators there are; an operator it does not have is
reported before an operand that does not fit. Integers are computed as doubles
and become integers again where the result is one.
-/

namespace Reckon

inductive Arithmetic where
  | add
  | sub
  | mul
  | div
deriving DecidableEq

inductive Comparison where
  | lt
  | le
  | ge
  | gt
deriving DecidableEq

inductive Connective where
  | and
  | or
deriving DecidableEq

/-- An operator between two operands. -/
inductive BinaryOperator where
  | arithmetic (op : Arithmetic)
  | comparison (op : Comparison)
  | bitAnd
  | logical (op : Connective)
deriving DecidableEq

/-- An operator before its operand. -/
inductive UnaryOperator where
  | plus
  | neg
  | increment
  | decrement
  | not
deriving DecidableEq

namespace BinaryOperator

/-- The operator that a text denotes between two operands. -/
def ofText? : String → Option BinaryOperator
  | "+" => some (arithmetic .add)
  | "-" => some (arithmetic .sub)
  | "*" => some (arithmetic .mul)
  | "/" => some (arithmetic .div)
  | "<" => some (comparison .lt)
  | "<=" => some (comparison .le)
  | ">=" => some (comparison .ge)
  | ">" => some (comparison .gt)
  | "&" => some bitAnd
  | "&&" => some (logical .and)
  | "||" => some (logical .or)
  | _ => none

end BinaryOperator

namespace UnaryOperator

/-- The operator that a text denotes before an operand. -/
def ofText? : String → Option UnaryOperator
  | "+" => some plus
  | "-" => some neg
  | "++" => some increment
  | "--" => some decrement
  | "!" => some not
  | _ => none

end UnaryOperator

/-- Whether a comparison holds of operands in this order. -/
def Comparison.holds : Comparison → Ordering → Bool
  | lt, order => order.isLT
  | le, order => order.isLE
  | ge, order => order.isGE
  | gt, order => order.isGT

def Connective.apply : Connective → Bool → Bool → Bool
  | and, a, b => a && b
  | or, a, b => a || b

/-- Arithmetic applied to doubles is given by the type that has the four operations. -/
def Arithmetic.apply {α : Type} [Add α] [Sub α] [Mul α] [Div α] : Arithmetic → α → α → α
  | add, a, b => a + b
  | sub, a, b => a - b
  | mul, a, b => a * b
  | div, a, b => a / b

/-- Whether a comparison holds of two doubles; none holds of not-a-number. -/
def Comparison.ofDoubles (op : Comparison) (a b : Double) : Bool :=
  match a.compare? b with
  | some order => op.holds order
  | none => false

namespace Value

/-- A number as an integer; a double loses its fraction. -/
def truncated : Value → Double → Int64
  | integer n, _ => n
  | _, x => x.toInt64

/-- A binary operator on a double; the other operand is any number. -/
def binaryDouble (op : BinaryOperator) (left : Double) (right : Value)
    (unsupported mismatch : EvaluationCause) : Except EvaluationCause Value :=
  match op with
  | .arithmetic op =>
    match right.number? with
    | some r => .ok (double (op.apply left r))
    | none => .error mismatch
  | .comparison op =>
    match right.number? with
    | some r => .ok (boolean (op.ofDoubles left r))
    | none => .error mismatch
  | _ => .error unsupported

/-- A binary operator on an integer; the other operand is any number. -/
def binaryInteger (op : BinaryOperator) (left : Int64) (right : Value)
    (unsupported mismatch : EvaluationCause) : Except EvaluationCause Value :=
  if op = .logical .or then .error unsupported
  else
    match right.number? with
    | none => .error mismatch
    | some r =>
      match op with
      | .arithmetic op => .ok (ofDouble (op.apply (.ofInt left.toInt) r))
      | .comparison op => .ok (boolean (op.ofDoubles (.ofInt left.toInt) r))
      | .bitAnd => .ok (integer (left &&& right.truncated r))
      | .logical _ => .ok (boolean (0 < left.toInt && 0 < (right.truncated r).toInt))

def binaryBoolean (op : BinaryOperator) (left : Bool) (right : Value)
    (unsupported mismatch : EvaluationCause) : Except EvaluationCause Value :=
  match op with
  | .logical op =>
    match right.boolean? with
    | some r => .ok (boolean (op.apply left r))
    | none => .error mismatch
  | _ => .error unsupported

def binaryTimestamp (op : BinaryOperator) (left : Timestamp) (right : Value)
    (unsupported mismatch : EvaluationCause) : Except EvaluationCause Value :=
  match op with
  | .comparison op =>
    match right.timestamp? with
    | some r => .ok (boolean (op.holds (left.compare r)))
    | none => .error mismatch
  | _ => .error unsupported

/-- The operator of a symbol applied between two values. -/
def binary (left : Value) (symbol : String) (right : Value) : Except EvaluationCause Value :=
  let unsupported := EvaluationCause.unsupportedOperator symbol left.type
  let mismatch := EvaluationCause.operandMismatch symbol left.type right.type
  match BinaryOperator.ofText? symbol with
  | none => .error unsupported
  | some op =>
    match left with
    | double l => binaryDouble op l right unsupported mismatch
    | integer l => binaryInteger op l right unsupported mismatch
    | boolean l => binaryBoolean op l right unsupported mismatch
    | timestamp l => binaryTimestamp op l right unsupported mismatch
    | array _ => .error unsupported

/-- The operator of a symbol applied to one value. Integers wrap around; a timestamp is left
as it is by every symbol. -/
def unary (symbol : String) (operand : Value) : Except EvaluationCause Value :=
  let unsupported := EvaluationCause.unsupportedOperator symbol operand.type
  match operand, UnaryOperator.ofText? symbol with
  | double x, some .plus => .ok (double x)
  | double x, some .neg => .ok (double (-x))
  | double x, some .increment => .ok (double (x + .one))
  | double x, some .decrement => .ok (double (x - .one))
  | integer n, some .plus => .ok (integer n)
  | integer n, some .neg => .ok (integer (-n))
  | integer n, some .increment => .ok (integer (n + 1))
  | integer n, some .decrement => .ok (integer (n - 1))
  | boolean b, some .not => .ok (boolean (!b))
  | timestamp t, _ => .ok (timestamp t)
  | _, _ => .error unsupported

end Value

end Reckon
