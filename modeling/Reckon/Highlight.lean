import Reckon.Grammar.Expression

/-!
Colouring a line by its tokens. A line that is no expression, such as one still
being typed, is left plain.
-/

namespace Reckon.Highlight

inductive Color where
  | white
  | magenta
  | cyan
  | red
  | yellow
deriving DecidableEq

/-- What a stretch of a line is, as far as its colour goes. -/
inductive Category where
  | plain
  | constant
  | number
  | identifier
  | operator
  | punctuation
deriving DecidableEq

/-- A stretch of a line with its category. -/
structure Segment where
  category : Category
  text : List Char
deriving DecidableEq

namespace Color

def name : Color → String
  | white => "White"
  | magenta => "Magenta"
  | cyan => "Cyan"
  | red => "Red"
  | yellow => "Yellow"

end Color

namespace Category

def color : Category → Color
  | plain => .white
  | constant => .magenta
  | number => .cyan
  | identifier => .red
  | operator => .yellow
  | punctuation => .white

/-- The category of a token. The names of the truth values are constants. -/
def ofToken (rule : Rule) (text : String) : Category :=
  match rule with
  | .numberLiteral => number
  | .identifier => if text = "true" ∨ text = "false" then constant else identifier
  | .openParen => punctuation
  | .closeParen => punctuation
  | .openBracket => punctuation
  | .closeBracket => punctuation
  | _ => operator

end Category

/-- Whether a tree is coloured: nothing was matched inside it, and it is neither the end of the
input nor a repetition without rounds. -/
def isColored (tree : ParseTree) : Bool :=
  tree.children.isEmpty && tree.rule ≠ .endOfInput && tree.rule.role ≠ .repetition

/-- The plain stretch of a line between two offsets, if the second lies behind the first. -/
def gap? (line : List Char) (start stop : Nat) : Option (List Segment) :=
  if start < stop then
    (Span.text? ⟨start, stop⟩ line).map fun text => [⟨.plain, text⟩]
  else some []

/-- The stretch of a line at a tree, as a token of its rule. -/
def token? (line : List Char) (tree : ParseTree) : Option Segment :=
  (tree.span.text? line).map fun text => ⟨.ofToken tree.rule (String.ofList text), text⟩

/-- The segments of a line from an offset on: the coloured ones of some trees, and what is left of
the line before, between and behind them. There are none if a span cuts a character apart. -/
def segmentsFrom? (line : List Char) (stop : Nat) : List ParseTree → Option (List Segment)
  | [] => gap? line stop (Text.byteLength line)
  | tree :: trees =>
    if isColored tree then do
      let gap ← gap? line stop tree.span.start
      let token ← token? line tree
      let more ← segmentsFrom? line tree.span.stop trees
      return gap ++ token :: more
    else segmentsFrom? line stop trees

def segments? (line : List Char) : Option (List Segment) :=
  match Grammar.run .main line with
  | .error _ => some [⟨.plain, line⟩]
  | .ok trees => segmentsFrom? line 0 (ParseTree.preorderOf trees)

/-- The segments of a line. -/
def segments (line : List Char) : List Segment := (segments? line).getD []

end Reckon.Highlight
