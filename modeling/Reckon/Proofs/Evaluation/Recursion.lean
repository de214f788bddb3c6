import Reckon.Evaluation.Basic
import Reckon.Proofs.Syntax.Walk

/-!
Evaluation by plain recursion: the children of an entry first, from left to
right, and then the entry itself. The walk with its memo comes to the same, as
an entry reads the values of its children and of their children only, all of
which have been visited before it.
-/

namespace Reckon.Evaluation

/-- The places whose values an entry may read: its children and theirs. -/
def Reads (t : SyntaxTree) (e : Entry) (place : Place) : Prop :=
  place ∈ e.children ∨ ∃ child ∈ e.children, place ∈ t.children child

variable {t : SyntaxTree} {v v' : Place → Option Value}

theorem required_congr {id : Place} (h : v id = v' id) : required t v id = required t v' id := by
  simp only [required, h]

private theorem fold_congr (left : Span) (result : Value) {groups : List OperatorGroup}
    (h : ∀ place ∈ (Shape.repetition groups).children, v place = v' place) :
    fold t v left result groups = fold t v' left result groups := by
  induction groups generalizing result with
  | nil => rfl
  | cons group rest ih =>
    have hoperand := required_congr (t := t) (h group.operand (by simp [Shape.children]))
    have hrest : ∀ place ∈ (Shape.repetition rest).children, v place = v' place := by
      intro place hplace
      exact h place (List.mem_append_right _ hplace)
    simp only [fold, hoperand, ih _ hrest]

/-- The value of an entry depends on the values of the places that it reads. -/
theorem entry_congr {e : Entry} (h : ∀ place, Reads t e place → v place = v' place)
    (env : Environment) (isNumber : Bool) :
    entry t env isNumber v e = entry t env isNumber v' e := by
  obtain ⟨rule, span, shape⟩ := e
  cases shape with
  | token text => rfl
  | repetition groups => rfl
  | node children =>
    have hchild : ∀ child ∈ children, required t v child = required t v' child :=
      fun child hchild => required_congr (h child (.inl hchild))
    have htier : ∀ left ∈ children, ∀ many ∈ children,
        tier t v left many = tier t v' left many := by
      intro left hleft many hmany
      simp only [tier, hchild left hleft]
      split
      · rfl
      · split
        · rfl
        · next e he =>
          split
          · next groups hgroups =>
            apply fold_congr
            intro place hplace
            refine h place (.inr ⟨many, hmany, ?_⟩)
            simp only [SyntaxTree.children, EntryTable.children]
            rw [SyntaxTree.get?] at he
            simp only [he, Entry.children, hgroups, hplace]
          · rfl
    simp only [entry]
    unfold node
    split
    · rfl
    · next only _ => rw [hchild only (by simp)]
    · next _ inner _ _ => rw [hchild inner (by simp)]
    · next base _ index _ _ =>
      simp only [indexed, hchild base (by simp), hchild index (by simp)]
    · rfl
    · next operator operand _ => simp only [unary, hchild operand (by simp)]
    · rfl
    · next left many _ => rw [htier left (by simp) many (by simp)]
    · rfl
    · rfl

theorem children_of_get? {id : Place} {e : Entry} (h : t.get? id = some e) :
    t.children id = e.children := by
  rw [SyntaxTree.get?] at h
  simp only [SyntaxTree.children, EntryTable.children, h]

theorem lt_of_reads {id place : Place} {e : Entry} (he : t.get? id = some e)
    (h : Reads t e place) : place < id := by
  rw [Reads, ← children_of_get? he] at h
  rcases h with hchild | ⟨child, hchild, hplace⟩
  · exact EntryTable.lt_of_mem_children hchild
  · exact Nat.lt_trans (EntryTable.lt_of_mem_children hplace)
      (EntryTable.lt_of_mem_children hchild)

/-- The value of the entry at a place, if it has one; `isNumber` says which tokens count as
numbers. -/
def recursive (t : SyntaxTree) (env : Environment) (isNumber : Place → Bool) (id : Place) :
    Except EvaluationError (Option Value) :=
  match t.get? id with
  | none => .error (missing t id)
  | some e =>
    match (t.children id).attach.mapM fun child => recursive t env isNumber child.1 with
    | .error failure => .error failure
    | .ok _ =>
      let value? place :=
        if _h : place < id then (recursive t env isNumber place).toOption.join else none
      entry t env (isNumber id) value? e
termination_by id
decreasing_by
  · exact EntryTable.lt_of_mem_children child.2
  · exact _h

def value? (t : SyntaxTree) (env : Environment) (isNumber : Place → Bool) (id : Place) :
    Option Value := (recursive t env isNumber id).toOption.join

variable {env : Environment} {isNumber : Place → Bool}

theorem recursive_eq (id : Place) :
    recursive t env isNumber id =
      match t.get? id with
      | none => .error (missing t id)
      | some e =>
        match (t.children id).mapM (recursive t env isNumber) with
        | .error failure => .error failure
        | .ok _ => entry t env (isNumber id) (value? t env isNumber) e := by
  rw [recursive]
  cases hentry : t.get? id with
  | none => rfl
  | some e =>
    simp only
    rw [List.mapM_subtype fun _ _ => rfl, List.unattach_attach]
    split
    · rfl
    · apply entry_congr
      intro place hplace
      rw [dif_pos (lt_of_reads hentry hplace), value?]

section entry

variable {id : Place}

theorem recursive_token {rule : Rule} {span : Span} {text : String}
    (h : t.get? id = some ⟨rule, span, .token text⟩) :
    recursive t env isNumber id =
      token env (isNumber id) ⟨rule, span, .token text⟩ text := by
  rw [recursive_eq, h, children_of_get? h]
  rfl

theorem recursive_node {rule : Rule} {span : Span} {ids : List Place}
    (h : t.get? id = some ⟨rule, span, .node ids⟩) :
    recursive t env isNumber id =
      match ids.mapM (recursive t env isNumber) with
      | .error failure => .error failure
      | .ok _ => node t (value? t env isNumber) ⟨rule, span, .node ids⟩ ids := by
  rw [recursive_eq, h, children_of_get? h]
  rfl

theorem recursive_repetition {rule : Rule} {span : Span} {groups : List OperatorGroup}
    (h : t.get? id = some ⟨rule, span, .repetition groups⟩) :
    recursive t env isNumber id =
      match (Shape.repetition groups).children.mapM (recursive t env isNumber) with
      | .error failure => .error failure
      | .ok _ => .ok none := by
  rw [recursive_eq, h, children_of_get? h]
  rfl

end entry

/-- A memo has come from another by keeping the values of some places, as recursion finds them. -/
def Keeps (t : SyntaxTree) (env : Environment) (isNumber : Place → Bool) (ids : List Place)
    (memo memo' : Memo) : Prop :=
  memo'.size = memo.size ∧ ∀ place,
    memo'.value? place = if place ∈ ids then value? t env isNumber place else memo.value? place

theorem Keeps.trans {first second : List Place} {memo memo' memo'' : Memo}
    (h : Keeps t env isNumber first memo memo') (h' : Keeps t env isNumber second memo' memo'') :
    Keeps t env isNumber (first ++ second) memo memo'' := by
  obtain ⟨hsize, hvalue⟩ := h
  obtain ⟨hsize', hvalue'⟩ := h'
  refine ⟨hsize'.trans hsize, ?_⟩
  intro place
  rw [hvalue', hvalue]
  by_cases hfirst : place ∈ first <;> by_cases hsecond : place ∈ second <;>
    simp [hfirst, hsecond]

theorem value?_setIfInBounds {memo : Memo} {id : Place} (hid : id < memo.size)
    (v : Option Value) (place : Place) :
    Memo.value? (memo.setIfInBounds id v) place = if place = id then v else memo.value? place := by
  simp only [Memo.value?, Array.getD_eq_getD_getElem?, Array.getElem?_setIfInBounds]
  by_cases h : id = place
  · simp [h, h ▸ hid]
  · simp [h, Ne.symm h]

/-- Whether a token counts as a number by the rule of its linked parent. -/
def underNumber (t : SyntaxTree) (links : Parents) (id : Place) : Bool :=
  links.parentRule? t id = some .number

section memo

variable {links : Parents}

/-- A visit finds what recursion finds, when the children have been evaluated and the memo has
the values that the entry reads. -/
theorem visit_eq {id : Place} {e : Entry} {vs : List (Option Value)} {memo : Memo}
    (hentry : t.get? id = some e)
    (hchildren : (t.children id).mapM (recursive t env (underNumber t links)) = .ok vs)
    (hreads : ∀ place, Reads t e place →
      memo.value? place = value? t env (underNumber t links) place) :
    visit t env links memo id =
      match recursive t env (underNumber t links) id with
      | .error failure => .error failure
      | .ok v => .ok (memo.setIfInBounds id v) := by
  have hrecursive : recursive t env (underNumber t links) id =
      entry t env (underNumber t links id) (value? t env (underNumber t links)) e := by
    rw [recursive_eq, hentry, hchildren]
  rw [hrecursive, ← entry_congr hreads]
  unfold visit
  split
  · next hnone =>
    rw [hentry] at hnone
    cases hnone
  · next e' he' =>
    rw [hentry] at he'
    cases he'
    rfl

/-- The visits below some places, given those below each of them. -/
private theorem foldlM_visits {ids : List Place}
    (h : ∀ id ∈ ids, ∀ memo : Memo, memo.size = t.size →
      (∃ failure, recursive t env (underNumber t links) id = .error failure ∧
          (t.table.unfolding id).foldlM (visit t env links) memo = .error failure) ∨
        ∃ v memo', recursive t env (underNumber t links) id = .ok v ∧
          (t.table.unfolding id).foldlM (visit t env links) memo = .ok memo' ∧
          Keeps t env (underNumber t links) (t.table.unfolding id) memo memo')
    (memo : Memo) (hsize : memo.size = t.size) :
    (∃ failure, ids.mapM (recursive t env (underNumber t links)) = .error failure ∧
        (ids.flatMap t.table.unfolding).foldlM (visit t env links) memo = .error failure) ∨
      ∃ vs memo', ids.mapM (recursive t env (underNumber t links)) = .ok vs ∧
        (ids.flatMap t.table.unfolding).foldlM (visit t env links) memo = .ok memo' ∧
        Keeps t env (underNumber t links) (ids.flatMap t.table.unfolding) memo memo' := by
  induction ids generalizing memo with
  | nil => exact .inr ⟨[], memo, rfl, rfl, rfl, fun _ => by simp⟩
  | cons id ids ih =>
    rw [List.flatMap_cons, List.foldlM_append, List.mapM_cons]
    rcases h id List.mem_cons_self memo hsize with ⟨failure, hrecursive, hfold⟩ |
      ⟨v, memo₁, hrecursive, hfold, hkeeps⟩
    · exact .inl ⟨failure, by rw [hrecursive]; rfl, by rw [hfold]; rfl⟩
    · have hrest := ih (fun id' hid' => h id' (List.mem_cons_of_mem _ hid')) memo₁
        (hkeeps.1.trans hsize)
      rcases hrest with ⟨failure, hmap, hfold'⟩ | ⟨vs, memo₂, hmap, hfold', hkeeps'⟩
      · exact .inl ⟨failure, by rw [hrecursive, hmap]; rfl, by rw [hfold]; exact hfold'⟩
      · exact .inr ⟨v :: vs, memo₂, by rw [hrecursive, hmap]; rfl, by rw [hfold]; exact hfold',
          hkeeps.trans hkeeps'⟩

/-- The visits below a place fail as the recursion does, or keep the values that it finds. -/
theorem foldlM_visit (links : Parents) (id : Place) (memo : Memo) (hsize : memo.size = t.size) :
    (∃ failure, recursive t env (underNumber t links) id = .error failure ∧
        (t.table.unfolding id).foldlM (visit t env links) memo = .error failure) ∨
      ∃ v memo', recursive t env (underNumber t links) id = .ok v ∧
        (t.table.unfolding id).foldlM (visit t env links) memo = .ok memo' ∧
        Keeps t env (underNumber t links) (t.table.unfolding id) memo memo' := by
  induction id using Nat.strongRecOn generalizing memo with
  | _ id ih =>
    have hunfolding : t.table.unfolding id =
        (t.children id).flatMap t.table.unfolding ++ [id] := EntryTable.unfolding_eq _ _
    rw [hunfolding, List.foldlM_append]
    cases hentry : t.get? id with
    | none =>
      have hnone : t.children id = [] := by
        rw [SyntaxTree.get?] at hentry
        simp only [SyntaxTree.children, EntryTable.children, hentry]
      refine .inl ⟨missing t id, ?_, ?_⟩
      · rw [recursive_eq, hentry]
      · rw [hnone]
        simp only [List.flatMap_nil, List.foldlM_nil, List.foldlM_cons, visit, hentry]
        rfl
    | some e =>
      have hlt : ∀ child ∈ t.children id, child < id :=
        fun child hchild => EntryTable.lt_of_mem_children hchild
      rcases foldlM_visits (fun child hchild => ih child (hlt child hchild)) memo hsize with
        ⟨failure, hmap, hfold⟩ | ⟨vs, memo₁, hmap, hfold, hkeeps⟩
      · refine .inl ⟨failure, ?_, ?_⟩
        · rw [recursive_eq, hentry, hmap]
        · rw [hfold]
          rfl
      · -- all that the entry reads has been visited with its children
        have hreads : ∀ place, Reads t e place →
            memo₁.value? place = value? t env (underNumber t links) place := by
          intro place hplace
          rw [hkeeps.2, if_pos]
          rw [Reads, ← children_of_get? hentry] at hplace
          rcases hplace with hchild | ⟨child, hchild, hplace⟩
          · exact List.mem_flatMap.mpr ⟨place, hchild, EntryTable.mem_unfolding_self _ _⟩
          · exact List.mem_flatMap.mpr ⟨child, hchild, EntryTable.mem_unfolding_child hplace⟩
        have hvisit := visit_eq hentry hmap hreads
        cases hresult : recursive t env (underNumber t links) id with
        | error failure =>
          refine .inl ⟨failure, rfl, ?_⟩
          rw [hresult] at hvisit
          rw [hfold]
          change ([id].foldlM (visit t env links) memo₁) = _
          rw [List.foldlM_cons, hvisit]
          rfl
        | ok v =>
          have hid : id < memo₁.size := by
            rw [hkeeps.1, hsize]
            obtain ⟨hlt, -⟩ := Array.getElem?_eq_some_iff.mp hentry
            exact hlt
          refine .inr ⟨v, memo₁.setIfInBounds id v, rfl, ?_, ?_⟩
          · rw [hresult] at hvisit
            rw [hfold]
            change ([id].foldlM (visit t env links) memo₁) = _
            rw [List.foldlM_cons, hvisit]
            rfl
          · refine hkeeps.trans ⟨Array.size_setIfInBounds, ?_⟩
            intro place
            rw [value?_setIfInBounds hid]
            by_cases hplace : place = id
            · simp [hplace, value?, hresult, Except.toOption]
            · simp [hplace]

end memo

/-- Evaluation of a tree is recursion from its root. -/
theorem evaluate_eq (t : SyntaxTree) (env : Environment) :
    evaluate t env =
      match recursive t env.withTruthValues (underNumber t (.ofTree t)) t.root with
      | .error failure => .error failure
      | .ok _ => required t (value? t env.withTruthValues (underNumber t (.ofTree t))) t.root := by
  have hsize : (Array.replicate t.size (none : Option Value)).size = t.size :=
    Array.size_replicate
  simp only [evaluate, EntryTable.walk_eq_foldlM]
  rcases foldlM_visit (.ofTree t) t.root _ hsize with ⟨failure, hrecursive, hfold⟩ |
    ⟨v, memo, hrecursive, hfold, -, hvalue⟩
  · rw [hrecursive, hfold]
  · rw [hrecursive, hfold]
    apply required_congr
    rw [hvalue, if_pos (EntryTable.mem_unfolding_self _ _)]

end Reckon.Evaluation
