import Reckon.Grammar.Rule
import Reckon.Text.Basic

/-!
Syntax trees as flat tables. An entry refers to its children by their place
in the table, and a table only grows by entries whose children are already in
it. So every child has a smaller place than its parent, which bounds every
descent, also where entries are shared.
-/

namespace Reckon

/-- The place of an entry in its table; it may lie outside a given table. -/
abbrev Place := Nat

/-- An operator with the operand after it. -/
structure OperatorGroup where
  operator : Place
  operand : Place
deriving DecidableEq

/-- What an entry is made of: source text, a fixed row of children, or any number of
operators each with an operand. -/
inductive Shape where
  | token (text : String)
  | node (children : List Place)
  | repetition (groups : List OperatorGroup)
deriving DecidableEq

structure Entry where
  rule : Rule
  span : Span
  shape : Shape
deriving DecidableEq

namespace Shape

/-- The children in source order, an operator before its operand. -/
def children : Shape → List Place
  | token _ => []
  | node children => children
  | repetition groups => groups.flatMap fun g => [g.operator, g.operand]

end Shape

namespace Entry

def children (e : Entry) : List Place := e.shape.children

def text? (e : Entry) : Option String :=
  match e.shape with
  | .token text => some text
  | _ => none

end Entry

/-- Elements in the order in which they were built, each after its children. -/
structure EntryTable where
  entries : Array Entry
  child_lt : ∀ (id : Nat) (h : id < entries.size), ∀ child ∈ entries[id].children, child < id

namespace EntryTable

def empty : EntryTable := ⟨#[], fun _ h => absurd h (Nat.not_lt_zero _)⟩

/-- The number of entries, which is the place of the next one. -/
def size (t : EntryTable) : Nat := t.entries.size

/-- Adds an entry whose children are in the table. -/
def push (t : EntryTable) (e : Entry) (h : ∀ child ∈ e.children, child < t.size) :
    EntryTable where
  entries := t.entries.push e
  child_lt := by
    intro id hid child hchild
    rw [Array.size_push] at hid
    by_cases hlt : id < t.entries.size
    · rw [Array.getElem_push_lt hlt] at hchild
      exact t.child_lt id hlt child hchild
    · have hid : id = t.entries.size := by omega
      subst hid
      rw [Array.getElem_push_eq] at hchild
      exact h child hchild

@[simp] theorem size_push (t : EntryTable) (e : Entry)
    (h : ∀ child ∈ e.children, child < t.size) : (t.push e h).size = t.size + 1 := by
  simp [size, push]

def get? (t : EntryTable) (id : Place) : Option Entry := t.entries[id]?

/-- The children of the entry at a place; none outside the table. -/
def children (t : EntryTable) (id : Place) : List Place :=
  match t.get? id with
  | some e => e.children
  | none => []

/-- Children come before their parents. -/
theorem lt_of_mem_children {t : EntryTable} {id child : Place}
    (h : child ∈ t.children id) : child < id := by
  unfold children get? at h
  split at h
  · next e he =>
    obtain ⟨hlt, rfl⟩ := Array.getElem?_eq_some_iff.mp he
    exact t.child_lt id hlt child h
  · cases h

end EntryTable

/-- A table with the source text it describes and the place of the root. -/
structure SyntaxTree where
  source : String
  table : EntryTable
  root : Place

namespace SyntaxTree

def size (t : SyntaxTree) : Nat := t.table.size

def get? (t : SyntaxTree) (id : Place) : Option Entry := t.table.get? id

def children (t : SyntaxTree) (id : Place) : List Place := t.table.children id

/-- The span of the entry at a place; a missing one stands for the whole source. -/
def spanOf (t : SyntaxTree) (id : Place) : Span :=
  match t.get? id with
  | some e => e.span
  | none => .whole t.source

end SyntaxTree

end Reckon
