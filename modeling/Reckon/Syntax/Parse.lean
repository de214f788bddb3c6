import Reckon.Grammar.Expression
import Reckon.Grammar.Nesting
import Reckon.Grammar.Rule
import Reckon.Syntax.Lowering

/-!
Reading a source text into a syntax tree: the nesting is judged first, then the
grammar, then the matched expression is lowered. A failure is something
unexpected, too much nesting, or another reason given in words, and belongs to a
span of the source. What could have come instead is told by expectations, for
each of which several rules of the grammar stand; each is named once, in the
order in which the rules come.
-/

namespace Reckon

/-- Something that may come next in an expression. -/
inductive Expectation where
  | number
  | identifier
  | openParen
  | closeParen
  | openBracket
  | closeBracket
  | endOfInput
  | operator
  | expression
deriving DecidableEq

namespace Expectation

/-- What the failure of a rule says was expected. A single symbol counts as an expression. -/
def ofRule : Rule → Expectation
  | .number => number
  | .numberLiteral => number
  | .identifier => identifier
  | .openParen => openParen
  | .closeParen => closeParen
  | .openBracket => openBracket
  | .closeBracket => closeBracket
  | .endOfInput => endOfInput
  | rule => if rule.isOperator then operator else expression

def phrase : Expectation → String
  | number => "number"
  | identifier => "identifier"
  | openParen => "'('"
  | closeParen => "')'"
  | openBracket => "'['"
  | closeBracket => "']'"
  | endOfInput => "end of input"
  | operator => "operator"
  | expression => "expression"

/-- What the failures of some rules say was expected, each thing once. -/
def ofRules (rules : List Rule) : List Expectation := (rules.map ofRule).eraseDups

/-- Names some expectations in a row, with `or` before the last. -/
def describe (expected : List Expectation) : String :=
  match expected.reverse with
  | [] => "something else"
  | [only] => only.phrase
  | last :: before =>
    ", ".intercalate (before.reverse.map phrase) ++ " or " ++ last.phrase

end Expectation

/-- What stands at the place of a mismatch: a rule that must not match there, a character, or
the end of the source. -/
inductive Found where
  | rule (r : Rule)
  | character (c : Char)
  | endOfInput
deriving DecidableEq

/-- Why a source text is no expression. -/
inductive SyntaxCause where
  | unexpected (expected : List Expectation) (found : Found)
  | tooDeep (depth limit : Nat)
  | other (message : String)
deriving DecidableEq

structure SyntaxError where
  cause : SyntaxCause
  span : Span
deriving DecidableEq

namespace Found

/-- What starts at a byte of a text. No character starts there when the byte lies inside one or
past the end. -/
def startingAt (source : List Char) (offset : Nat) : Found :=
  match Text.dropBytes? source offset with
  | some (c :: _) => character c
  | _ => endOfInput

def phrase : Found → String
  | rule r => r.name
  | character c => "'" ++ String.singleton c ++ "'"
  | endOfInput => "end of input"

end Found

namespace SyntaxCause

def message : SyntaxCause → String
  | unexpected expected found =>
    "Expected " ++ Expectation.describe expected ++ ", found " ++ found.phrase
  | tooDeep depth limit =>
    "Expression nesting depth " ++ toString depth ++ " exceeds maximum of " ++ toString limit ++
      " levels"
  | other message => message

end SyntaxCause

/-- Why matching a grammar stopped: no rule fits, with the rules that could go on and those
that must not, or the matching itself gave up. -/
inductive Obstacle where
  | noMatch (positive negative : List Rule)
  | gaveUp (message : String)

namespace SyntaxError

/-- The failure that an obstacle means to a reader. Matching that gave up on a limit of its own
has met more nesting than it can bear; `nesting` is the depth of the source. -/
def ofObstacle (obstacle : Obstacle) (source : List Char) (span : Span) (nesting : Nat) :
    SyntaxError :=
  match obstacle with
  | .noMatch positive negative =>
    let found := match negative with
      | r :: _ => .rule r
      | [] => Found.startingAt source span.start
    ⟨.unexpected (Expectation.ofRules positive) found, span⟩
  | .gaveUp message =>
    if contains "stack limit".toList message.toList || contains "call limit".toList message.toList
    then ⟨.tooDeep nesting (nesting - 1), span⟩
    else ⟨.other message, span⟩
where
  /-- Whether a text occurs in another. -/
  contains (part : List Char) : List Char → Bool
    | [] => part.isEmpty
    | c :: rest => part.isPrefixOf (c :: rest) || contains part rest

/-- The failure that a mismatch of the grammar means to a reader. -/
def ofMismatch (mismatch : Grammar.Mismatch) (source : List Char) (nesting : Nat) : SyntaxError :=
  ofObstacle (.noMatch mismatch.expected []) source ⟨mismatch.offset, mismatch.offset⟩ nesting

/-- The failure that too much nesting is, at the character that exceeds the limit. -/
def ofExcess (excess : NestingExcess) : SyntaxError :=
  ⟨.tooDeep excess.depth excess.limit,
    ⟨excess.offset, excess.offset + excess.character.utf8Size⟩⟩

end SyntaxError

end Reckon

namespace Reckon.SyntaxTree

/-- The expression inside a match of the main rule. -/
def expression? (trees : List ParseTree) : Option ParseTree :=
  match trees with
  | tree :: _ => tree.children.find? fun child => child.rule = .expression
  | [] => none

def missingExpression (source : String) : SyntaxError :=
  ⟨.other "missing expression", .whole source⟩

/-- Reads a source text whose nesting stays within a limit. -/
def parse (source : String) (limit : Nat := Nesting.defaultLimit) :
    Except SyntaxError SyntaxTree :=
  match Nesting.deepest limit source.toList with
  | .error excess => .error (.ofExcess excess)
  | .ok nesting =>
    match Grammar.run .main source.toList with
    | .error mismatch => .error (.ofMismatch mismatch source.toList nesting)
    | .ok trees =>
      match expression? trees with
      | none => .error (missingExpression source)
      | some tree =>
        match ofParseTree source tree with
        | .error fault => .error ⟨.other "dangling operator in repetition", fault.span⟩
        | .ok parsed => .ok parsed

end Reckon.SyntaxTree
