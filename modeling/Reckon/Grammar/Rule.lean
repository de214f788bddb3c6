/-!
The vocabulary of the expression grammar: precedence tiers, operator symbols and
the rules built from them. The order of `Rule.all` is the order in which
expectations are listed.
-/

namespace Reckon

/-- A precedence tier of binary operators, from the loosest to the tightest. -/
inductive Tier where
  | logicalOr
  | logicalAnd
  | bitwiseAnd
  | relational
  | additive
  | multiplicative
deriving DecidableEq

/-- A symbol as an operator token. A sign is one symbol between operands and another before
an operand. -/
inductive Symbol where
  | logicalOr
  | logicalAnd
  | bitwiseAnd
  | le
  | ge
  | lt
  | gt
  | add
  | sub
  | mul
  | div
  | increment
  | decrement
  | plus
  | minus
  | not
deriving DecidableEq

/-- A rule of the grammar. -/
inductive Rule where
  | endOfInput
  | whitespace
  | main
  | expression
  | tier (t : Tier)
  | repetition (t : Tier)
  | unary
  | primary
  | number
  | numberLiteral
  | exponent
  | identifier
  | tierOperator (t : Tier)
  | unaryOperator
  | symbol (s : Symbol)
  | openParen
  | closeParen
  | openBracket
  | closeBracket
deriving DecidableEq

namespace Tier

/-- The tiers from the loosest to the tightest. -/
def all : List Tier :=
  [logicalOr, logicalAnd, bitwiseAnd, relational, additive, multiplicative]

def name : Tier → String
  | logicalOr => "logical_or"
  | logicalAnd => "logical_and"
  | bitwiseAnd => "bitwise_and"
  | relational => "relational"
  | additive => "additive"
  | multiplicative => "multiplicative"

/-- The symbols of a tier in the order in which they are tried; a longer one comes before
its own beginning. -/
def symbols : Tier → List Symbol
  | logicalOr => [.logicalOr]
  | logicalAnd => [.logicalAnd]
  | bitwiseAnd => [.bitwiseAnd]
  | relational => [.le, .ge, .lt, .gt]
  | additive => [.add, .sub]
  | multiplicative => [.mul, .div]

def tighter : Tier → List Tier
  | logicalOr => [logicalAnd, bitwiseAnd, relational, additive, multiplicative]
  | logicalAnd => [bitwiseAnd, relational, additive, multiplicative]
  | bitwiseAnd => [relational, additive, multiplicative]
  | relational => [additive, multiplicative]
  | additive => [multiplicative]
  | multiplicative => []

end Tier

namespace Symbol

/-- All symbols, those between operands first. -/
def all : List Symbol :=
  [logicalOr, logicalAnd, bitwiseAnd, le, ge, lt, gt, add, sub, mul, div,
    increment, decrement, plus, minus, not]

/-- The symbols that stand before an operand, in the order in which they are tried. -/
def unary : List Symbol := [increment, decrement, plus, minus, not]

def name : Symbol → String
  | logicalOr => "logical_or"
  | logicalAnd => "logical_and"
  | bitwiseAnd => "bitwise_and"
  | le => "le"
  | ge => "ge"
  | lt => "lt"
  | gt => "gt"
  | add => "add"
  | sub => "sub"
  | mul => "mul"
  | div => "div"
  | increment => "increment"
  | decrement => "decrement"
  | plus => "plus"
  | minus => "minus"
  | not => "not"

def text : Symbol → List Char
  | logicalOr => ['|', '|']
  | logicalAnd => ['&', '&']
  | bitwiseAnd => ['&']
  | le => ['<', '=']
  | ge => ['>', '=']
  | lt => ['<']
  | gt => ['>']
  | add => ['+']
  | sub => ['-']
  | mul => ['*']
  | div => ['/']
  | increment => ['+', '+']
  | decrement => ['-', '-']
  | plus => ['+']
  | minus => ['-']
  | not => ['!']

end Symbol

/-- How a tree node made by a rule takes part in evaluation. -/
inductive Role where
  | operator
  | primary
  | unaryPrimary
  | binaryTier
  | repetition
  | number
  | wrapper
  | token
deriving DecidableEq

namespace Rule

/-- All rules in the order in which expectations are listed. -/
def all : List Rule :=
  [endOfInput, whitespace, main, expression] ++
    Tier.all.flatMap (fun t => [tier t, repetition t]) ++
    [unary, primary, number, numberLiteral, exponent, identifier] ++
    Tier.all.map tierOperator ++ [unaryOperator] ++ Symbol.all.map symbol ++
    [openParen, closeParen, openBracket, closeBracket]

def name : Rule → String
  | endOfInput => "EOI"
  | whitespace => "WHITESPACE"
  | main => "main"
  | expression => "expression"
  | tier t => "expression_" ++ t.name
  | repetition t => "expression_" ++ t.name ++ "_many"
  | unary => "expression_primary"
  | primary => "primary"
  | number => "number"
  | numberLiteral => "number_literal"
  | exponent => "exponent"
  | identifier => "identifier"
  | tierOperator t => t.name ++ "_operator"
  | unaryOperator => "unary_operator"
  | symbol s => "op_" ++ s.name
  | openParen => "open_paren"
  | closeParen => "close_paren"
  | openBracket => "open_bracket"
  | closeBracket => "close_bracket"

def ofName? (name : String) : Option Rule := all.find? (·.name == name)

/-- The part that the nodes of a rule play in evaluation. -/
def role : Rule → Role
  | tierOperator _ => .operator
  | unaryOperator => .operator
  | primary => .primary
  | unary => .unaryPrimary
  | tier _ => .binaryTier
  | repetition _ => .repetition
  | number => .number
  | main => .wrapper
  | expression => .wrapper
  | _ => .token

/-- Whether a rule wraps a single operator symbol. -/
def isOperator (r : Rule) : Bool := r.role = .operator

end Rule

end Reckon
