import Reckon.Syntax.Walk

/-!
The walk with a stack against the recursion it stands for. The unfolding of a
place lists the places below it and the place itself, children before parents
and shared ones repeated; the walk makes its visits in this order and stops at
the first that fails.
-/

namespace Reckon

namespace EntryTable

/-- The places visited below a place and the place itself, by recursion. -/
def unfolding (t : EntryTable) (id : Place) : List Place :=
  ((t.children id).attach.flatMap fun child => t.unfolding child.1) ++ [id]
termination_by id
decreasing_by exact lt_of_mem_children child.2

theorem unfolding_eq (t : EntryTable) (id : Place) :
    t.unfolding id = (t.children id).flatMap t.unfolding ++ [id] := by
  rw [unfolding, List.flatMap_subtype fun _ _ => rfl, List.unattach_attach]

theorem mem_unfolding_self (t : EntryTable) (id : Place) : id ∈ t.unfolding id := by
  rw [unfolding_eq]
  exact List.mem_append_right _ (List.mem_singleton_self id)

theorem mem_unfolding_child {t : EntryTable} {id child : Place} (h : child ∈ t.children id) :
    child ∈ t.unfolding id := by
  rw [unfolding_eq]
  exact List.mem_append_left _ (List.mem_flatMap.mpr ⟨child, h, t.mem_unfolding_self child⟩)

variable {σ ε : Type} {t : EntryTable} {visit : σ → Place → Except ε σ}

/-- The visits that a stack of the walk stands for. -/
def visitsOf (t : EntryTable) : List Pending → List Place
  | [] => []
  | .opening id :: stack => t.unfolding id ++ t.visitsOf stack
  | .visiting id :: stack => id :: t.visitsOf stack

theorem visitsOf_opening (t : EntryTable) (ids : List Place) (stack : List Pending) :
    t.visitsOf (ids.map .opening ++ stack) = ids.flatMap t.unfolding ++ t.visitsOf stack := by
  induction ids with
  | nil => rfl
  | cons id ids ih =>
    rw [List.map_cons, List.cons_append, visitsOf, ih, List.flatMap_cons, List.append_assoc]

theorem walkStack_eq_foldlM (stack : List Pending) (state : σ) :
    t.walkStack visit stack state = (t.visitsOf stack).foldlM visit state := by
  fun_induction walkStack t visit stack state with
  | case1 state => rfl
  | case2 id stack state e he =>
    rw [visitsOf, List.foldlM_cons, he]
    rfl
  | case3 id stack state state' hstate ih =>
    rw [visitsOf, List.foldlM_cons, hstate]
    exact ih
  | case4 id stack state ih =>
    rw [ih, visitsOf_opening, visitsOf, visitsOf, unfolding_eq, List.append_assoc]
    rfl

/-- The walk visits the unfolding of its start in order. -/
theorem walk_eq_foldlM (start : Place) (state : σ) :
    t.walk start visit state = (t.unfolding start).foldlM visit state := by
  rw [walk, walkStack_eq_foldlM, visitsOf, visitsOf, List.append_nil]

end EntryTable

namespace SyntaxTree

theorem foldPostOrder_eq_foldl {σ : Type} (t : SyntaxTree) (visit : σ → Place → σ) (state : σ) :
    t.foldPostOrder visit state = (t.table.unfolding t.root).foldl visit state := by
  have hfold : ∀ (ids : List Place) (state : σ),
      ids.foldlM (fun s id => (.ok (visit s id) : Except Empty σ)) state =
        .ok (ids.foldl visit state) := by
    intro ids
    induction ids with
    | nil => exact fun _ => rfl
    | cons id ids ih => exact fun state => ih (visit state id)
  simp only [foldPostOrder, EntryTable.walk_eq_foldlM, hfold]

theorem toList_postOrder (t : SyntaxTree) : t.postOrder.toList = t.table.unfolding t.root := by
  have hpush : ∀ (ids : List Place) (visited : Array Place),
      (ids.foldl Array.push visited).toList = visited.toList ++ ids := by
    intro ids
    induction ids with
    | nil => simp
    | cons id ids ih => simp
  rw [postOrder, foldPostOrder_eq_foldl, hpush, List.nil_append]

end SyntaxTree

end Reckon
