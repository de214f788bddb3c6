import Reckon.Evaluation.Basic
import Reckon.Evaluation.Error
import Reckon.Syntax.Parse

/-!
Evaluation of source text: it is read into a tree, which is evaluated against
an environment. Nothing is kept from one evaluation to the next. A failure is
made into a diagnostic, which has what a report needs: the message, the span it
belongs to, advice if there is some, and a code for the kind of failure.
-/

namespace Reckon

/-- The source languages. There is one. -/
inductive Language where
  | c
deriving DecidableEq

namespace Language

/-- The language that is used unless another is asked for. -/
def default : Language := c

def name : Language → String
  | c => "c"

/-- The language of a name; an unknown name is itself the error. -/
def ofName : String → Except String Language
  | "c" => .ok c
  | "C" => .ok c
  | other => .error other

end Language

/-- Why the engine has no value to give; a failure about a source text keeps the text. -/
inductive Failure where
  | unsupportedLanguage (name : String)
  | parse (error : SyntaxError) (source : String)
  | evaluation (error : EvaluationError) (source : String)

/-- A message about a span of source, with advice and a code. -/
structure Diagnostic where
  message : String
  span : Span
  help : Option String
  code : String
deriving DecidableEq

namespace SyntaxCause

def code : SyntaxCause → String
  | unexpected _ _ => "P001"
  | tooDeep _ _ => "P004"
  | other _ => "P999"

def help? : SyntaxCause → Option String
  | tooDeep _ _ => some "Reduce nesting or simplify the expression"
  | _ => none

end SyntaxCause

namespace EvaluationCause

def code : EvaluationCause → String
  | malformedNumber _ => "R001"
  | unsupportedOperator _ _ => "R002"
  | operandMismatch _ _ _ => "R003"
  | indexNotInteger _ => "R004"
  | notAnArray _ => "R005"
  | indexOutOfBounds _ _ => "R006"
  | undefinedVariable _ => "R007"
  | missingValue _ => "R999"
  | malformedTree _ _ => "R999"

def help? : EvaluationCause → Option String
  | operandMismatch _ _ _ => some "Both operands must have compatible types"
  | indexOutOfBounds _ size => some ("Valid indices are 0 to " ++ toString (size - 1))
  | undefinedVariable name =>
    some ("Bind '" ++ name ++ "' in the environment before evaluating")
  | _ => none

end EvaluationCause

namespace Failure

/-- The message of a failure, which says at which stage it arose. -/
def message : Failure → String
  | unsupportedLanguage name => "Unsupported language '" ++ name ++ "'"
  | parse error _ => "Parse error: " ++ error.cause.message
  | evaluation error _ => "Evaluation error: " ++ error.cause.message

def source? : Failure → Option String
  | unsupportedLanguage _ => none
  | parse _ source => some source
  | evaluation _ source => some source

def diagnostic : Failure → Diagnostic
  | unsupportedLanguage name =>
    { message := "Unsupported language '" ++ name ++ "'"
      span := ⟨0, 0⟩
      help := some ("'" ++ name ++ "' is not a known language; try 'c'")
      code := "L001" }
  | parse error _ => ⟨error.cause.message, error.span, error.cause.help?, error.cause.code⟩
  | evaluation error _ => ⟨error.cause.message, error.span, error.cause.help?, error.cause.code⟩

end Failure

end Reckon

namespace Reckon.Source

def parse (source : String) (limit : Nat := Nesting.defaultLimit) : Except Failure SyntaxTree :=
  match SyntaxTree.parse source limit with
  | .ok tree => .ok tree
  | .error error => .error (.parse error source)

/-- The value of a tree. A failure is about the source that the tree was read from. -/
def evaluateTree (tree : SyntaxTree) (env : Environment) : Except Failure Value :=
  match Evaluation.evaluate tree env with
  | .ok value => .ok value
  | .error error => .error (.evaluation error tree.source)

def evaluate (source : String) (env : Environment)
    (limit : Nat := Nesting.defaultLimit) : Except Failure Value :=
  match parse source limit with
  | .ok tree => evaluateTree tree env
  | .error failure => .error failure

def language (name : String) : Except Failure Language :=
  match Language.ofName name with
  | .ok language => .ok language
  | .error name => .error (.unsupportedLanguage name)

end Reckon.Source
