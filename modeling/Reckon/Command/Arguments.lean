import Reckon.Grammar.Lexeme
import Reckon.Source
import Reckon.Value.Literal

/-!
The arguments of the command. Options and the one expression come in any order;
after a lone `--` everything is an expression. The value of an option may be
attached with an equals sign or be the next argument. A value that came as an
argument of its own is judged only when the next option or expression is taken
up, so that an argument nobody knows is reported first. A binding is a name, an
equals sign and a literal.
-/

namespace Reckon.Command

inductive BindingError where
  | missingEquals (text : String)
  | invalidName (name : String)
  | invalidValue (name : String) (error : LiteralError)
deriving DecidableEq

namespace BindingError

def message : BindingError → String
  | missingEquals text => "expected NAME=VALUE, got '" ++ text ++ "'"
  | invalidName name => "'" ++ name ++ "' is not a valid variable name"
  | invalidValue name error => "invalid value for '" ++ name ++ "': " ++ error.message

end BindingError

/-- Whether a text is a name: a letter or underscore and then letters, digits and
underscores, all ASCII. -/
def isName : List Char → Bool
  | [] => false
  | c :: rest => Grammar.Lexeme.isNameStart c && rest.all Grammar.Lexeme.isNamePart

/-- Reads a binding. The first equals sign ends the name, around which white space does not
count. -/
def binding (text : List Char) : Except BindingError (String × Value) :=
  let name := Text.trim (text.takeWhile (· ≠ '='))
  match text.dropWhile (· ≠ '=') with
  | [] => .error (.missingEquals (String.ofList text))
  | _ :: literal =>
    if isName name then
      match Value.ofText literal with
      | .ok value => .ok (String.ofList name, value)
      | .error error => .error (.invalidValue (String.ofList name) error)
    else .error (.invalidName (String.ofList name))

/-- What the arguments ask for. -/
structure Options where
  bindings : List (String × Value)
  language : Language
  debugTree : Bool
  expression : Option String

/-- Why arguments are not accepted. Help is asked for and not an error, but it ends the reading
of arguments in the same way. -/
inductive UsageError where
  | invalidValue (reason : String)
  | missingValue
  | repeated
  | unknown
  | unneededValue
  | help
deriving DecidableEq

inductive ValueOption where
  | var
  | language
deriving DecidableEq

/-- Something taken up whose effect is still outstanding. -/
inductive Outstanding where
  | option (name : ValueOption) (value : Option String)
  | expression (text : String)

/-- The state of the reading: what is settled so far, whether the language was given, what is
outstanding, and whether only expressions can follow. -/
structure Reading where
  options : Options
  languageGiven : Bool
  outstanding : Option Outstanding
  expressionsOnly : Bool

namespace Reading

def start : Reading := ⟨⟨[], .default, false, none⟩, false, none, false⟩

/-- Gives an option its value. Only bindings may be repeated. -/
def assign (s : Reading) (option : ValueOption) (value : String) : Except UsageError Reading :=
  match option with
  | .var =>
    match binding value.toList with
    | .ok b => .ok { s with options.bindings := s.options.bindings ++ [b] }
    | .error error => .error (.invalidValue error.message)
  | .language =>
    if s.languageGiven then .error .repeated
    else
      match Language.ofName value with
      | .ok language => .ok { s with options.language := language, languageGiven := true }
      | .error name => .error (.invalidValue ("Unsupported language '" ++ name ++ "'"))

/-- Gives what is outstanding its effect. -/
def settle (s : Reading) : Except UsageError Reading :=
  let rest := { s with outstanding := none }
  match s.outstanding with
  | none => .ok s
  | some (.expression text) => .ok { rest with options.expression := some text }
  | some (.option _ none) => .error .missingValue
  | some (.option option (some value)) => rest.assign option value

def hasExpression (s : Reading) : Bool :=
  match s.outstanding with
  | some (.expression _) => true
  | _ => s.options.expression.isSome

/-- Takes up an expression; there can be only one. -/
def takeExpression (s : Reading) (text : String) : Except UsageError Reading :=
  if s.hasExpression then .error .unknown
  else do
    let s ← s.settle
    return { s with outstanding := some (.expression text) }

def takeValueOption (s : Reading) (option : ValueOption) (attached : Option String) :
    Except UsageError Reading := do
  let s ← s.settle
  match attached with
  | some value => s.assign option value
  | none => return { s with outstanding := some (.option option none) }

def takeFlag (s : Reading) (attached : Option String)
    (effect : Reading → Except UsageError Reading) : Except UsageError Reading :=
  if attached.isSome then .error .unneededValue
  else do effect (← s.settle)

def askTree (s : Reading) : Except UsageError Reading :=
  if s.options.debugTree then .error .repeated
  else .ok { s with options.debugTree := true }

def takeOption (s : Reading) (name : String) (attached : Option String) :
    Except UsageError Reading :=
  match name with
  | "var" => s.takeValueOption .var attached
  | "language" => s.takeValueOption .language attached
  | "debug-tree" => s.takeFlag attached askTree
  | "help" => s.takeFlag attached fun _ => .error .help
  | _ => .error .unknown

/-- Takes up a cluster of one-letter options, of which only the one for help exists. -/
def takeLetters (s : Reading) (letters : List Char) : Except UsageError Reading :=
  if letters.head? = some 'h' then do
    let _ ← s.settle
    .error .help
  else .error .unknown

/-- Takes up an argument that is no option: the value that an option waits for, or an
expression. -/
def takeWord (s : Reading) (text : String) : Except UsageError Reading :=
  match s.outstanding with
  | some (.option option none) =>
    .ok { s with outstanding := some (.option option (some text)) }
  | _ => s.takeExpression text

/-- Takes up one argument. A lone hyphen is no option. -/
def take (s : Reading) (argument : String) : Except UsageError Reading :=
  if s.expressionsOnly then s.takeExpression argument
  else
    match argument.toList with
    | ['-', '-'] => .ok { s with expressionsOnly := true }
    | '-' :: '-' :: text =>
      let name := String.ofList (text.takeWhile (· ≠ '='))
      match text.dropWhile (· ≠ '=') with
      | [] => s.takeOption name none
      | _ :: value => s.takeOption name (some (String.ofList value))
    | ['-'] => s.takeWord argument
    | '-' :: letters => s.takeLetters letters
    | _ => s.takeWord argument

end Reading

def Options.ofArguments (arguments : List String) : Except UsageError Options := do
  let s ← arguments.foldlM Reading.take Reading.start
  let s ← s.settle
  return s.options

end Reckon.Command
