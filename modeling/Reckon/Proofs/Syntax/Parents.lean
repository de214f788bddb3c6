import Mathlib.Data.List.Nodup
import Mathlib.Data.List.Pairwise
import Reckon.Syntax.Walk
import Reckon.Proofs.Syntax.Walk

/-!
Parent links. The link of a place leads to the last of the visited places that
have it among their children. In an unfolding without repetition every place
but the first is the child of exactly one place, so there the links invert the
children.
-/

namespace Reckon

namespace EntryTable

/-- Only places in the table have children. -/
theorem lt_size_of_mem_children {t : EntryTable} {id child : Place} (h : child ∈ t.children id) :
    id < t.size := by
  unfold children get? at h
  split at h
  · next e he => exact (Array.getElem?_eq_some_iff.mp he).1
  · cases h

/-- The places of an unfolding are the children of its places, and its start. -/
theorem unfolding_perm (t : EntryTable) (id : Place) :
    (t.unfolding id).Perm ((t.unfolding id).flatMap t.children ++ [id]) := by
  induction id using Nat.strongRecOn with
  | _ id ih =>
    have hchildren : ∀ ids : List Place, (∀ child ∈ ids, child < id) →
        (ids.flatMap t.unfolding).Perm ((ids.flatMap t.unfolding).flatMap t.children ++ ids) := by
      intro ids hids
      induction ids with
      | nil => exact .nil
      | cons child ids ih' =>
        have hchild := ih child (hids child List.mem_cons_self)
        have hrest := ih' fun child' hchild' => hids child' (List.mem_cons_of_mem _ hchild')
        rw [List.flatMap_cons, List.flatMap_append]
        refine (hchild.append hrest).trans ?_
        rw [List.append_assoc, List.append_assoc]
        refine List.Perm.append_left _ ?_
        rw [List.singleton_append]
        exact List.perm_middle.symm
    have hbelow := hchildren (t.children id) fun child hchild => lt_of_mem_children hchild
    rw [unfolding_eq, List.flatMap_append, List.flatMap_singleton]
    exact hbelow.append_right [id]

/-- In an unfolding without repetition no place is the child of two. -/
theorem parent_unique {t : EntryTable} {root place p q : Place} (h : (t.unfolding root).Nodup)
    (hp : p ∈ t.unfolding root) (hq : q ∈ t.unfolding root) (hplace : place ∈ t.children p)
    (hplace' : place ∈ t.children q) : p = q := by
  have hnodup := (t.unfolding_perm root).nodup_iff.mp h
  have hdisjoint := (List.nodup_flatMap.mp (List.nodup_append.mp hnodup).1).2
  have hsymm : Std.Symm (Function.onFun List.Disjoint t.children) := ⟨fun _ _ h _ hq hp => h hp hq⟩
  refine Classical.byContradiction fun hne => ?_
  exact hdisjoint.forall hp hq hne hplace hplace'

end EntryTable

namespace Parents

variable {t : SyntaxTree}

private theorem getD_foldl_setIfInBounds (id place : Place) (children : List Place)
    (parents : Array (Option Place)) :
    (children.foldl (fun parents child => parents.setIfInBounds child (some id)) parents).getD
        place none =
      if place ∈ children ∧ place < parents.size then some id else parents.getD place none := by
  induction children generalizing parents with
  | nil => simp
  | cons child children ih =>
    rw [List.foldl_cons, ih, Array.size_setIfInBounds]
    simp only [Array.getD_eq_getD_getElem?, Array.getElem?_setIfInBounds, List.mem_cons]
    by_cases hchild : child = place
    · subst hchild
      by_cases hsize : child < parents.size
      · simp [hsize]
      · simp [hsize]
    · simp [hchild, Ne.symm hchild]

theorem parent?_linkChildren (links : Parents) (id : Place) {place : Place}
    (hplace : place < links.parents.size) :
    (linkChildren t links id).parent? place =
      if place ∈ t.children id then some id else links.parent? place := by
  simp only [parent?, linkChildren, getD_foldl_setIfInBounds, hplace, and_true]

@[simp] theorem size_linkChildren (links : Parents) (id : Place) :
    (linkChildren t links id).parents.size = links.parents.size := by
  have hsize : ∀ (children : List Place) (parents : Array (Option Place)),
      (children.foldl (fun parents child => parents.setIfInBounds child (some id)) parents).size =
        parents.size := by
    intro children
    induction children with
    | nil => exact fun _ => rfl
    | cons child children ih => exact fun parents => by rw [List.foldl_cons, ih]; simp
  exact hsize _ _

/-- After links have been made from some places in turn, the link of a place leads to the last of
them that has it among its children. -/
theorem parent?_foldl (ids : List Place) (links : Parents) {place : Place}
    (hplace : place < links.parents.size) :
    (ids.foldl (linkChildren t) links).parent? place =
      ((ids.filter fun id => place ∈ t.children id).getLast?).or (links.parent? place) := by
  induction ids generalizing links with
  | nil => rfl
  | cons id ids ih =>
    rw [List.foldl_cons, ih _ (by rwa [size_linkChildren]), parent?_linkChildren links id hplace]
    by_cases hid : place ∈ t.children id
    · rw [if_pos hid, List.filter_cons_of_pos (by simpa using hid), List.getLast?_cons]
      cases (ids.filter fun id => place ∈ t.children id).getLast? <;> rfl
    · rw [if_neg hid, List.filter_cons_of_neg (by simpa using hid)]

/-- The link of a place leads to the last visited place that has it among its children. -/
theorem parent?_ofTree (t : SyntaxTree) {place : Place} (hplace : place < t.size) :
    (ofTree t).parent? place =
      ((t.table.unfolding t.root).filter fun id => place ∈ t.children id).getLast? := by
  have hnone : parent? ⟨Array.replicate t.size none⟩ place = none := by
    simp [parent?, hplace]
  rw [ofTree, SyntaxTree.foldPostOrder_eq_foldl, parent?_foldl _ _ (by simpa using hplace),
    hnone, Option.or_none]

/-- Where no place is visited twice, the link of a child leads to its parent. -/
theorem parent?_eq_some {t : SyntaxTree} (h : (t.table.unfolding t.root).Nodup) {id place : Place}
    (hid : id ∈ t.table.unfolding t.root) (hplace : place ∈ t.children id) :
    (ofTree t).parent? place = some id := by
  have hsize : place < t.size := Nat.lt_trans (EntryTable.lt_of_mem_children hplace)
    (EntryTable.lt_size_of_mem_children hplace)
  rw [parent?_ofTree t hsize]
  have hmem : id ∈ (t.table.unfolding t.root).filter fun id => place ∈ t.children id :=
    List.mem_filter.mpr ⟨hid, by simpa using hplace⟩
  cases hlast : ((t.table.unfolding t.root).filter fun id => place ∈ t.children id).getLast? with
  | none =>
    rw [List.getLast?_eq_none_iff.mp hlast] at hmem
    cases hmem
  | some last =>
    obtain ⟨hmem', hplace'⟩ := List.mem_filter.mp (List.mem_of_getLast? hlast)
    exact congrArg some (EntryTable.parent_unique h hmem' hid (of_decide_eq_true hplace')
      hplace)

end Parents

end Reckon
