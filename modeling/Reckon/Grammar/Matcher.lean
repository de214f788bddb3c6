import Reckon.Grammar.ParseTree

/-!
Ordered-choice matching. A matcher runs at a cursor and either yields trees and
the cursor after them or fails; a failed alternative leaves the cursor where it
was. Beside the result runs a record of the rules that failed at the furthest
place reached, from which a mismatch says what could have come next.
-/

namespace Reckon.Grammar

/-- The text still to match and its offset in the source. -/
structure Cursor where
  rest : List Char
  offset : Nat

/-- The furthest offset at which a rule has failed, and the rules that failed there. -/
structure Furthest where
  offset : Nat
  failed : List Rule

/-- The trees matched and the cursor after them, if any, and the updated record. -/
abbrev Outcome := Option (List ParseTree × Cursor) × Furthest

/-- A matcher of a part of the grammar. -/
abbrev Matcher := Cursor → Furthest → Outcome

/-- The characters between tokens. -/
def isLayout (c : Char) : Bool := c = ' ' || c = '\t' || c = '\r' || c = '\n'

namespace Cursor

def start (source : List Char) : Cursor := ⟨source, 0⟩

/-- The cursor after a lexeme that leaves `rest`. -/
def after (c : Cursor) (lexeme rest : List Char) : Cursor :=
  ⟨rest, c.offset + Text.byteLength lexeme⟩

/-- The cursor after the layout that stands here. -/
def skipLayout (c : Cursor) : Cursor :=
  c.after (c.rest.takeWhile isLayout) (c.rest.dropWhile isLayout)

end Cursor

namespace Furthest

def empty : Furthest := ⟨0, []⟩

/-- How many failures are recorded at an offset. -/
def count (f : Furthest) (offset : Nat) : Nat :=
  if f.offset = offset then f.failed.length else 0

/-- Records that a rule entered at `offset`, when `before` failures were recorded there, has
failed. A single failure recorded inside it says more than the rule itself and stays; any
other number is replaced by the rule. Failures behind the furthest place are dropped. -/
def record (f : Furthest) (rule : Rule) (offset before : Nat) : Furthest :=
  if f.count offset = before + 1 then f
  else if f.offset = offset then ⟨offset, f.failed.take before ++ [rule]⟩
  else if f.offset < offset then ⟨offset, [rule]⟩
  else f

end Furthest

def fail : Matcher := fun _ f => (none, f)

/-- Matches one lexeme without a tree and without a record. -/
@[inline] def silent (lexeme? : List Char → Option (List Char × List Char)) : Matcher :=
  fun c f =>
    match lexeme? c.rest with
    | some (lexeme, rest) => (some ([], c.after lexeme rest), f)
    | none => (none, f)

/-- Matches one lexeme as a token of a rule. -/
@[inline] def token (rule : Rule) (lexeme? : List Char → Option (List Char × List Char)) :
    Matcher :=
  fun c f =>
    match lexeme? c.rest with
    | some (lexeme, rest) =>
      let stop := c.after lexeme rest
      (some ([.leaf rule ⟨c.offset, stop.offset⟩ (String.ofList lexeme)], stop), f)
    | none => (none, f.record rule c.offset (f.count c.offset))

/-- Matches a rule whose body is another matcher, as a branch over what the body matched. -/
@[inline] def rule (rule : Rule) (body : Matcher) : Matcher :=
  fun c f =>
    match body c f with
    | (some (trees, stop), f') => (some ([.branch rule ⟨c.offset, stop.offset⟩ trees], stop), f')
    | (none, f') => (none, f'.record rule c.offset (f.count c.offset))

/-- The second alternative is tried at the same place when the first fails. -/
@[inline] def orElse (first second : Matcher) : Matcher :=
  fun c f =>
    match first c f with
    | (none, f') => second c f'
    | matched => matched

/-- One matcher and then another, with layout between them. -/
@[inline] def andThen (first second : Matcher) : Matcher :=
  fun c f =>
    match first c f with
    | (none, f') => (none, f')
    | (some (trees, middle), f') =>
      match second middle.skipLayout f' with
      | (none, f'') => (none, f'')
      | (some (more, stop), f'') => (some (trees ++ more, stop), f'')

/-- At most `rounds` rounds after the first: layout and one more round, as long as the round
matches; layout before a round that fails is given back. -/
@[specialize] def moreRounds (round : Matcher) :
    Nat → Cursor → Furthest → (List ParseTree × Cursor) × Furthest
  | 0, c, f => (([], c), f)
  | rounds + 1, c, f =>
    match round c.skipLayout f with
    | (none, f') => (([], c), f')
    | (some (trees, stop), f') =>
      let ((more, last), f'') := moreRounds round rounds stop f'
      ((trees ++ more, last), f'')

/-- As many rounds as match, with layout between them; never fails. Every round of this grammar
takes a character, so that the characters left bound the rounds to come; one more is tried and
fails where the text ends. -/
@[inline] def many (round : Matcher) : Matcher :=
  fun c f =>
    match round c f with
    | (none, f') => (some ([], c), f')
    | (some (trees, stop), f') =>
      let ((more, last), f'') := moreRounds round (stop.rest.length + 1) stop f'
      (some (trees ++ more, last), f'')

end Reckon.Grammar
