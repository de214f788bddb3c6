import Reckon.Text.Basic

/-!
How deep a text nests, judged by its characters alone. Every open bracket is a
level, and so is every sign or negation that stands where an operand is
expected. A bracket takes the levels of the signs before it with it until it
closes; a name or number drops them, also the name of an index. The scan runs
before the grammar.
-/

namespace Reckon

/-- The state of the scan: the levels that each unclosed bracket holds, the innermost first;
their sum; the signs pending before an operand; and whether an operand comes next. -/
structure Nesting where
  opened : List Nat
  enclosing : Nat
  pending : Nat
  expectsOperand : Bool
deriving DecidableEq

/-- Where a text exceeds a nesting limit, and the depth reached there. -/
structure NestingExcess where
  depth : Nat
  limit : Nat
  offset : Nat
  character : Char
deriving DecidableEq

namespace Nesting

/-- The limit that holds unless another is given. -/
def defaultLimit : Nat := 128

def start : Nesting := ⟨[], 0, 0, true⟩

def depth (s : Nesting) : Nat := s.enclosing + s.pending

/-- The state after one more character. A closing bracket closes the innermost open one of
either kind. Any character that is neither blank nor part of a name or number is taken
for an operator. -/
def step (s : Nesting) (c : Char) : Nesting :=
  if c = '(' ∨ c = '[' then
    ⟨(s.pending + 1) :: s.opened, s.enclosing + (s.pending + 1), 0, true⟩
  else if c = ')' ∨ c = ']' then
    match s.opened with
    | levels :: outer => ⟨outer, s.enclosing - levels, 0, false⟩
    | [] => ⟨[], s.enclosing, 0, false⟩
  else if (c = '+' ∨ c = '-' ∨ c = '!') ∧ s.expectsOperand then { s with pending := s.pending + 1 }
  else if Text.isBlank c then s
  else if c.isAlphanum ∨ c = '_' ∨ c = '.' then { s with pending := 0, expectsOperand := false }
  else { s with expectsOperand := true }

/-- Scans on from a state, having been `deepest` levels deep so far: the deepest level of
all, or the first character that exceeds the limit. -/
def scan (limit : Nat) (s : Nesting) (deepest offset : Nat) :
    List Char → Except NestingExcess Nat
  | [] => .ok deepest
  | c :: rest =>
    let next := s.step c
    if limit < next.depth then .error ⟨next.depth, limit, offset, c⟩
    else scan limit next (max deepest next.depth) (offset + c.utf8Size) rest

/-- The deepest level of a text, or its excess over a limit. -/
def deepest (limit : Nat) (source : List Char) : Except NestingExcess Nat :=
  scan limit start 0 0 source

end Nesting

end Reckon
