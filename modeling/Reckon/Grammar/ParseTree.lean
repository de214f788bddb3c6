import Reckon.Grammar.Rule
import Reckon.Text.Basic

/-!
The tree of rules that matched. A leaf is a token with its text; a branch holds
the trees of the rules matched inside it, of which a repetition may have none.
-/

namespace Reckon

/-- A matched rule with the rules matched inside it. -/
inductive ParseTree where
  | leaf (rule : Rule) (span : Span) (text : String)
  | branch (rule : Rule) (span : Span) (children : List ParseTree)

namespace ParseTree

def rule : ParseTree → Rule
  | leaf rule _ _ => rule
  | branch rule _ _ => rule

def span : ParseTree → Span
  | leaf _ span _ => span
  | branch _ span _ => span

def children : ParseTree → List ParseTree
  | leaf _ _ _ => []
  | branch _ _ children => children

mutual

/-- The rules and spans of a tree, parents before children. -/
def outline : ParseTree → List (Rule × Span)
  | leaf rule span _ => [(rule, span)]
  | branch rule span children => (rule, span) :: outlines children

def outlines : List ParseTree → List (Rule × Span)
  | [] => []
  | tree :: rest => outline tree ++ outlines rest

end

mutual

/-- A tree and all trees in it, parents before children. -/
def preorder : ParseTree → List ParseTree
  | leaf rule span text => [leaf rule span text]
  | branch rule span children => branch rule span children :: preorderOf children

def preorderOf : List ParseTree → List ParseTree
  | [] => []
  | tree :: rest => preorder tree ++ preorderOf rest

end

mutual

/-- The tokens of a tree from left to right. -/
def leaves : ParseTree → List (Rule × Span × String)
  | leaf rule span text => [(rule, span, text)]
  | branch _ _ children => leavesOf children

def leavesOf : List ParseTree → List (Rule × Span × String)
  | [] => []
  | tree :: rest => leaves tree ++ leavesOf rest

end

end ParseTree

end Reckon
