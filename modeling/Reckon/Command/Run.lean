import Reckon.Command.Arguments
import Reckon.Source
import Reckon.Report
import Reckon.Syntax.Walk

/-!
What the command does: it evaluates the expression given to it, or else every
line of its input, each on its own. Values and trees go to the output, reports
to the error output; a failed evaluation does not change the exit status.
-/

namespace Reckon.Command

structure Transcript where
  status : UInt32
  output : String
  errors : String

/-- What evaluating one text writes: to the output and to the error output. -/
abbrev Written := String × String

def writeValue (value : Value) : Written := (toString value ++ "\n", "")

def writeFailure (failure : Failure) : Written := ("", Report.render failure true)

def writeOutcome : Except Failure Value → Written
  | .ok value => writeValue value
  | .error failure => writeFailure failure

/-- A tree under its heading, with an empty line after it. -/
def treeText (tree : SyntaxTree) : String :=
  String.join (("=== Parse Tree ===" :: tree.outline ++ [""]).map (· ++ "\n"))

/-- Evaluates one text, which may be blank. Where its tree is asked for, the text is read first and
the tree shown and evaluated by itself, and a failure is reported for the text. -/
def reply (debugTree : Bool) (env : Environment) (text : String) : Written :=
  if Text.trim text.toList = [] then ("", "")
  else if debugTree then
    match SyntaxTree.parse text with
    | .error error => writeFailure (.parse error text)
    | .ok tree =>
      let (output, errors) :=
        match Evaluation.evaluate tree env with
        | .ok value => writeValue value
        | .error error => writeFailure (.evaluation error text)
      (treeText tree ++ output, errors)
  else writeOutcome (Source.evaluate text env)

/-- The lines of an input. A line feed ends a line, and a carriage return before it belongs to
the end. -/
def inputLines (input : List Char) : List (List Char) :=
  match input with
  | [] => []
  | _ => lines [] input
where
  /-- The lines of the rest of an input, `line` being what has been read of the first, last
  character first. -/
  lines (line : List Char) : List Char → List (List Char)
    | [] => if line = [] then [] else [line.reverse]
    | '\n' :: rest => (if line.head? = some '\r' then line.tail else line).reverse :: lines [] rest
    | c :: rest => lines (c :: line) rest

/-- The texts that a run evaluates: the expression, or else the lines of the input. -/
def Options.texts (options : Options) (input : String) : List String :=
  match options.expression with
  | some text => [text]
  | none => (inputLines input.toList).map String.ofList

def Options.run (options : Options) (input : String) : Transcript :=
  let env := Environment.ofList options.bindings
  let written := (options.texts input).map (reply options.debugTree env)
  ⟨0, String.join (written.map Prod.fst), String.join (written.map Prod.snd)⟩

def helpText : String :=
  "Evaluate C-like expressions against variable bindings\n\n" ++
  "Usage: ceval [OPTIONS] [EXPRESSION]\n\n" ++
  "Arguments:\n" ++
  "  [EXPRESSION]  Expression to evaluate (if not provided, reads from stdin)\n\n" ++
  "Options:\n" ++
  "      --var <NAME=VALUE>     " ++
  "Bind a variable, e.g. `--var x=1` or `--var arr=[1,2,3]` (repeatable)\n" ++
  "      --language <LANGUAGE>  Source language of the expression [default: c]\n" ++
  "      --debug-tree           Print the parse tree before evaluating (for debugging)\n" ++
  "  -h, --help                 Print help\n"

def UsageError.message : UsageError → String
  | invalidValue reason => "invalid value: " ++ reason
  | missingValue => "a value is required for the last option"
  | repeated => "an option that may be given once is repeated"
  | unknown => "unexpected argument"
  | unneededValue => "an option without value was given one"
  | help => ""

def run (arguments : List String) (input : String) : Transcript :=
  match Options.ofArguments arguments with
  | .ok options => options.run input
  | .error .help => ⟨0, helpText, ""⟩
  | .error error => ⟨2, "", "error: " ++ error.message ++ "\n"⟩

end Reckon.Command
