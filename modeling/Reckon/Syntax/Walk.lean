import Reckon.Syntax.Tree
import Reckon.Text.Display

/-!
Walking a syntax tree in post-order with a stack of its own, so that the depth
of a tree costs no call depth. An entry shared by several parents is visited
once for each way down to it. The number of visits that a stack still stands
for is what decreases. The parents of entries are linked by such a walk: of
several the one visited last counts. The outline of a tree has a line for each
entry, with its children two columns further in.
-/

namespace Reckon

namespace EntryTable

/-- The number of stack entries that the walk below a place takes in all: two for the place
and those of its children. -/
def walkLength (t : EntryTable) (id : Place) : Nat :=
  (t.children id).attach.foldr (fun child length => t.walkLength child.1 + length) 2
termination_by id
decreasing_by exact lt_of_mem_children child.2

theorem walkLength_eq (t : EntryTable) (id : Place) :
    t.walkLength id =
      (t.children id).foldr (fun child length => t.walkLength child + length) 2 := by
  rw [walkLength]
  exact List.foldr_attach (f := fun child length => t.walkLength child + length)

/-- An entry waiting on the stack of the walk: to be opened, or to be visited now that its
children have been. -/
inductive Pending where
  | opening (id : Place)
  | visiting (id : Place)

/-- The number of stack entries that a stack still stands for. -/
def stackLength (t : EntryTable) : List Pending → Nat
  | [] => 0
  | .opening id :: stack => t.walkLength id + t.stackLength stack
  | .visiting _ :: stack => 1 + t.stackLength stack

/-- Opening a row of places puts their walks on the stack. -/
theorem stackLength_opening (t : EntryTable) (ids : List Place) (stack : List Pending)
    (size : Nat) :
    t.stackLength (ids.map .opening ++ stack) + size =
      ids.foldr (fun child length => t.walkLength child + length) size + t.stackLength stack := by
  induction ids with
  | nil => simp only [List.map_nil, List.nil_append, List.foldr_nil]; omega
  | cons id ids ih =>
    simp only [List.map_cons, List.cons_append, stackLength, List.foldr_cons]
    omega

/-- Works off a stack, threading a state through the visits and stopping at the first that
fails. -/
def walkStack {σ ε : Type} (t : EntryTable) (visit : σ → Place → Except ε σ) :
    List Pending → σ → Except ε σ
  | [], state => .ok state
  | .visiting id :: stack, state =>
    match visit state id with
    | .error e => .error e
    | .ok state => t.walkStack visit stack state
  | .opening id :: stack, state =>
    t.walkStack visit ((t.children id).map .opening ++ .visiting id :: stack) state
termination_by stack => t.stackLength stack
decreasing_by
  · simp only [stackLength]
    omega
  · have h := t.stackLength_opening (t.children id) (.visiting id :: stack) 2
    rw [← walkLength_eq] at h
    simp only [stackLength] at h ⊢
    omega

/-- Visits everything below a place and then the place itself. A place outside the table is
visited once. -/
def walk {σ ε : Type} (t : EntryTable) (start : Place)
    (visit : σ → Place → Except ε σ) (state : σ) : Except ε σ :=
  t.walkStack visit [.opening start] state

end EntryTable

namespace SyntaxTree

/-- Walks from the root with visits that cannot fail. -/
def foldPostOrder {σ : Type} (t : SyntaxTree) (visit : σ → Place → σ) (state : σ) : σ :=
  match t.table.walk t.root (fun s id => (.ok (visit s id) : Except Empty σ)) state with
  | .ok state => state

/-- The places visited from the root, in order, shared ones repeated. -/
def postOrder (t : SyntaxTree) : Array Place := t.foldPostOrder Array.push #[]

/-- The places in the table that the root reaches, in increasing order. -/
def reachable (t : SyntaxTree) : List Place :=
  let marks := t.foldPostOrder (fun marks id => marks.setIfInBounds id true)
    (Array.replicate t.size false)
  (List.range t.size).filter fun id => marks.getD id false

end SyntaxTree

/-- For each place in a table, the place of its parent if it has one. -/
structure Parents where
  parents : Array (Option Place)

namespace Parents

/-- Links all children of an entry to it. -/
def linkChildren (t : SyntaxTree) (links : Parents) (id : Place) : Parents :=
  ⟨(t.children id).foldl (fun parents child => parents.setIfInBounds child (some id))
    links.parents⟩

/-- The links of everything that the root reaches. -/
def ofTree (t : SyntaxTree) : Parents :=
  t.foldPostOrder (linkChildren t) ⟨Array.replicate t.size none⟩

def parent? (links : Parents) (id : Place) : Option Place := links.parents.getD id none

def parentRule? (links : Parents) (t : SyntaxTree) (id : Place) : Option Rule := do
  let parent ← links.parent? id
  let entry ← t.get? parent
  return entry.rule

end Parents

/-- The lines of the entry at a place and of everything below it. A token shows its text in
quotation marks. -/
def EntryTable.outline (t : EntryTable) (id : Place) (indent : Nat) : List String :=
  let margin := String.ofList (List.replicate indent ' ')
  match t.get? id with
  | none => [margin ++ "<missing " ++ toString id ++ ">"]
  | some e =>
    match e.shape with
    | .token text => [margin ++ e.rule.name ++ " " ++ String.ofList (Text.quoted text.toList)]
    | _ =>
      (margin ++ e.rule.name) ::
        (t.children id).attach.flatMap fun ⟨child, h⟩ =>
          have := EntryTable.lt_of_mem_children h
          t.outline child (indent + 2)
termination_by id

def SyntaxTree.outline (t : SyntaxTree) : List String := t.table.outline t.root 0

end Reckon
