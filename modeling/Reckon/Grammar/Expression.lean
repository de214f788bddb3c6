import Reckon.Grammar.Lexeme
import Reckon.Grammar.Matcher

/-!
The grammar of expressions. Six tiers of binary operators, each an operand and
a repetition of operator and operand, stand over unary operators and primaries.
A primary in parentheses or brackets holds a whole expression again, so the
grammar is built by levels: a matcher of level `n` nests at most `n` deep, and a
text of `n` characters cannot nest deeper.
-/

namespace Reckon.Grammar

/-- One of some symbols, the first that fits. -/
def symbols : List Symbol → Matcher
  | [] => fail
  | s :: rest => orElse (token (.symbol s) (Lexeme.symbol? s)) (symbols rest)

def tierOperator (t : Tier) : Matcher := rule (.tierOperator t) (symbols t.symbols)

def unaryOperator : Matcher := rule .unaryOperator (symbols Symbol.unary)

/-- A number, which is a rule of its own around its literal. -/
def number : Matcher := rule .number (token .numberLiteral Lexeme.number?)

def identifier : Matcher := token .identifier Lexeme.identifier?

def bracket (r : Rule) (c : Char) : Matcher := token r (Lexeme.exactly? [c])

/-- The repetition of a tier: operators each with an operand of the tighter tiers. -/
def repetition (t : Tier) (operand : Matcher) : Matcher :=
  rule (.repetition t) (many (andThen (tierOperator t) operand))

/-- The operand of some tiers over a matcher of unary expressions. -/
def tiers (operand : Matcher) : List Tier → Matcher
  | [] => operand
  | t :: tighter =>
    rule (.tier t) (andThen (tiers operand tighter) (repetition t (tiers operand tighter)))

def expression (operand : Matcher) : Matcher := rule .expression (tiers operand Tier.all)

/-- A group, an indexed name, a number or a name, in this order. -/
def primary (operand : Matcher) : Matcher :=
  rule .primary
    (orElse
      (andThen (bracket .openParen '(')
        (andThen (expression operand) (bracket .closeParen ')')))
      (orElse
        (andThen identifier
          (andThen (bracket .openBracket '[')
            (andThen (expression operand) (bracket .closeBracket ']'))))
        (orElse number identifier)))

/-- A unary expression of a nesting level: a unary operator and a unary expression of the
level below, or a primary over those. -/
def unary : Nat → Matcher
  | 0 => fail
  | level + 1 =>
    rule .unary (orElse (andThen unaryOperator (unary level)) (primary (unary level)))

def startOfInput : Matcher := fun c f => if c.offset = 0 then (some ([], c), f) else (none, f)

def endOfInput : Matcher := token .endOfInput Lexeme.endOfInput?

/-- The exponent as a rule of its own allows layout between its parts; it has no tree. -/
def exponent : Matcher :=
  andThen (silent (Lexeme.character? fun c => c = 'e' || c = 'E'))
    (andThen (orElse (silent (Lexeme.character? fun c => c = '+' || c = '-'))
        (silent (Lexeme.exactly? [])))
      (andThen (silent (Lexeme.character? Char.isDigit))
        (many (silent (Lexeme.character? Char.isDigit)))))

/-- The matcher of a rule, for texts that nest at most `level` deep. -/
def ofRule (level : Nat) : Rule → Matcher
  | .endOfInput => endOfInput
  | .whitespace => silent (Lexeme.character? isLayout)
  | .main => rule .main (andThen startOfInput (andThen (expression (unary level)) endOfInput))
  | .expression => expression (unary level)
  | .tier t => tiers (unary level) (t :: t.tighter)
  | .repetition t => repetition t (tiers (unary level) t.tighter)
  | .unary => unary level
  | .primary => primary (unary level)
  | .number => number
  | .numberLiteral => token .numberLiteral Lexeme.number?
  | .exponent => exponent
  | .identifier => identifier
  | .tierOperator t => tierOperator t
  | .unaryOperator => unaryOperator
  | .symbol s => token (.symbol s) (Lexeme.symbol? s)
  | .openParen => bracket .openParen '('
  | .closeParen => bracket .closeParen ')'
  | .openBracket => bracket .openBracket '['
  | .closeBracket => bracket .closeBracket ']'

/-- Where a text stops matching and which rules could go on there. -/
structure Mismatch where
  offset : Nat
  expected : List Rule

/-- Matches a rule at the start of a text. The rules of a mismatch come in the order of the
grammar, each once. -/
def run (r : Rule) (source : List Char) : Except Mismatch (List ParseTree) :=
  match ofRule (source.length + 1) r (.start source) .empty with
  | (some (trees, _), _) => .ok trees
  | (none, furthest) =>
    .error ⟨furthest.offset, Rule.all.filter fun r => furthest.failed.contains r⟩

end Reckon.Grammar
