import Mathlib.Data.List.Induction
import Reckon.Proofs.Evaluation.Unfolded
import Reckon.Source

/-!
Shared entries. A token asks its parent link whether it counts as a number, and
of several parents the link knows only one; where they agree about it, a table
evaluates to what its unfolding does. The visits come in an order in which
children are first, so a shared entry that is visited again finds the same
value, and no entry reads a place before its visit.
-/

namespace Reckon

/-- The entries that have a token among their children are all numbers, or none of them is. -/
def SyntaxTree.TokensAgree (t : SyntaxTree) : Prop :=
  ∀ id, ((t.get? id).bind Entry.text?).isSome →
    (∀ p e, t.get? p = some e → id ∈ e.children → e.rule = .number) ∨
      ∀ p e, t.get? p = some e → id ∈ e.children → e.rule ≠ .number

namespace Evaluation

variable {t : SyntaxTree} {env : Environment} {isNumber : Place → Bool} {id : Place}

theorem get?_of_mem_children {p child : Place} (h : child ∈ t.children p) :
    ∃ e, t.get? p = some e ∧ child ∈ e.children := by
  cases he : t.get? p with
  | none =>
    rw [SyntaxTree.get?] at he
    simp [SyntaxTree.children, EntryTable.children, he] at h
  | some e => exact ⟨e, rfl, by rwa [children_of_get? he] at h⟩

/-- The link of a token leads to one of the visited entries above it, and these agree. -/
theorem underNumber_of_mem_children (h : t.TokensAgree) {p child : Place} {e : Entry}
    (hp : p ∈ t.table.unfolding t.root) (he : t.get? p = some e) (hchild : child ∈ e.children)
    (htoken : ((t.get? child).bind Entry.text?).isSome) :
    underNumber t (.ofTree t) child = decide (e.rule = .number) := by
  rw [← children_of_get? he] at hchild
  have hsize : child < t.size := Nat.lt_trans (EntryTable.lt_of_mem_children hchild)
    (EntryTable.lt_size_of_mem_children hchild)
  have hmem : p ∈ (t.table.unfolding t.root).filter fun id => child ∈ t.children id :=
    List.mem_filter.mpr ⟨hp, by simpa using hchild⟩
  cases hlast : ((t.table.unfolding t.root).filter fun id => child ∈ t.children id).getLast? with
  | none =>
    rw [List.getLast?_eq_none_iff.mp hlast] at hmem
    cases hmem
  | some q =>
    have hchild' : child ∈ t.children q := by
      simpa using (List.mem_filter.mp (List.mem_of_getLast? hlast)).2
    obtain ⟨e', he', hmem'⟩ := get?_of_mem_children hchild'
    have hrule : (Parents.ofTree t).parentRule? t child = some e'.rule := by
      rw [Parents.parentRule?, Parents.parent?_ofTree t hsize, hlast]
      simp [he']
    rw [children_of_get? he] at hchild
    have hagree : e'.rule = .number ↔ e.rule = .number := by
      rcases h child htoken with hall | hnone
      · exact iff_of_true (hall q e' he' hmem') (hall p e he hchild)
      · exact iff_of_false (hnone q e' he' hmem') (hnone p e he hchild)
    simp [underNumber, hrule, hagree]

/-- Nothing stands above a token that is the root. -/
theorem underNumber_root (htoken : ((t.get? t.root).bind Entry.text?).isSome) :
    underNumber t (.ofTree t) t.root = false := by
  obtain ⟨e, he⟩ : ∃ e, t.get? t.root = some e := by
    cases he : t.get? t.root with
    | none => simp [he] at htoken
    | some e => exact ⟨e, rfl⟩
  have hchildren : t.children t.root = [] := by
    obtain ⟨rule, span, shape⟩ := e
    cases shape <;> simp [he, Entry.text?] at htoken
    exact children_of_get? he
  have hunfolding : t.table.unfolding t.root = [t.root] := by
    rw [EntryTable.unfolding_eq, show t.table.children t.root = [] from hchildren]
    rfl
  have hsize : t.root < t.size := (Array.getElem?_eq_some_iff.mp he).1
  simp [underNumber, Parents.parentRule?, Parents.parent?_ofTree t hsize, hunfolding, hchildren]

/-- Visits in which every place comes after its children. -/
def ChildrenFirst (t : EntryTable) (ids : List Place) : Prop :=
  ∀ before id after, ids = before ++ id :: after → ∀ child ∈ t.children id, child ∈ before

theorem ChildrenFirst.append {t : EntryTable} {ids ids' : List Place} (h : ChildrenFirst t ids)
    (h' : ChildrenFirst t ids') : ChildrenFirst t (ids ++ ids') := by
  intro before id after heq child hchild
  rcases List.append_eq_append_iff.mp heq with ⟨middle, rfl, hids'⟩ | ⟨middle, rfl, hids'⟩
  · exact List.mem_append_right _ (h' middle id after hids' child hchild)
  · cases middle with
    | nil => exact absurd (h' [] id after hids'.symm child hchild) List.not_mem_nil
    | cons id' middle =>
      obtain ⟨rfl, -⟩ := List.cons.inj hids'
      exact h before id middle rfl child hchild

theorem childrenFirst_unfolding (t : EntryTable) (root : Place) :
    ChildrenFirst t (t.unfolding root) := by
  induction root using Nat.strongRecOn with
  | _ root ih =>
    have hbelow : ∀ ids : List Place, (∀ child ∈ ids, child < root) →
        ChildrenFirst t (ids.flatMap t.unfolding) := by
      intro ids hids
      induction ids with
      | nil => intro before id after heq; simp at heq
      | cons id ids ih' =>
        exact (ih id (hids id List.mem_cons_self)).append
          (ih' fun child hchild => hids child (List.mem_cons_of_mem _ hchild))
    rw [EntryTable.unfolding_eq]
    intro before id after heq child hchild
    rcases List.append_eq_append_iff.mp heq with ⟨middle, rfl, hroot⟩ | ⟨middle, hids, hroot⟩
    · obtain ⟨rfl, hid⟩ : middle = [] ∧ root = id := by
        cases middle <;> simp_all
      subst hid
      rw [List.append_nil]
      exact List.mem_flatMap.mpr ⟨child, hchild, t.mem_unfolding_self child⟩
    · cases middle with
      | nil =>
        obtain rfl : id = root := (List.cons.inj hroot).1
        rw [List.append_nil] at hids
        rw [← hids]
        exact List.mem_flatMap.mpr ⟨child, hchild, t.mem_unfolding_self child⟩
      | cons id' middle =>
        obtain ⟨rfl, -⟩ := List.cons.inj hroot
        exact hbelow _ (fun _ => EntryTable.lt_of_mem_children) before id middle hids child hchild

/-- What an entry reads has been visited before it. -/
theorem mem_of_reads {t : SyntaxTree} {ids before after : List Place} {id place : Place}
    {e : Entry} (h : ChildrenFirst t.table ids) (hids : ids = before ++ id :: after)
    (he : t.get? id = some e) (hreads : Reads t e place) : place ∈ before := by
  rw [Reads, ← children_of_get? he] at hreads
  rcases hreads with hchild | ⟨child, hchild, hplace⟩
  · exact h before id after hids place hchild
  · obtain ⟨first, second, rfl⟩ := List.mem_iff_append.mp (h before id after hids child hchild)
    refine List.mem_append_left _ (h first child (second ++ id :: after) ?_ place hplace)
    rw [hids, List.append_assoc, List.cons_append]

/-- The memo after some visits from an empty one. -/
def memoAfter (t : SyntaxTree) (env : Environment) (ids : List Place) :
    Except EvaluationError Memo :=
  ids.foldlM (visit t env.withTruthValues (.ofTree t)) (Array.replicate t.size none)

theorem memoAfter_append_singleton (before : List Place) (id : Place) :
    memoAfter t env (before ++ [id]) =
      (memoAfter t env before >>= (visit t env.withTruthValues (.ofTree t) · id)) := by
  simp only [memoAfter, List.foldlM_append, List.foldlM_cons, List.foldlM_nil, bind_pure]

private theorem exists_mapM {ids : List Place}
    (h : ∀ id ∈ ids, ∃ v, recursive t env isNumber id = .ok v) :
    ∃ vs, ids.mapM (recursive t env isNumber) = .ok vs := by
  induction ids with
  | nil => exact ⟨[], rfl⟩
  | cons id ids ih =>
    obtain ⟨v, hv⟩ := h id List.mem_cons_self
    obtain ⟨vs, hvs⟩ := ih fun id' hid' => h id' (List.mem_cons_of_mem _ hid')
    exact ⟨v :: vs, by rw [List.mapM_cons, hv, hvs]; rfl⟩

/-- A visit after everything that its entry reads finds what recursion finds. -/
theorem visit_of_written {before : List Place} {memo : Memo} {e : Entry}
    (he : t.get? id = some e) (hreads : ∀ place, Reads t e place → place ∈ before)
    (hwritten : ∀ place ∈ before, ∃ v,
      recursive t env (underNumber t (.ofTree t)) place = .ok v ∧ memo.value? place = v) :
    visit t env (.ofTree t) memo id =
      match recursive t env (underNumber t (.ofTree t)) id with
      | .error failure => .error failure
      | .ok v => .ok (memo.setIfInBounds id v) := by
  have hchildren : ∀ child ∈ t.children id, ∃ v,
      recursive t env (underNumber t (.ofTree t)) child = .ok v := by
    intro child hchild
    rw [children_of_get? he] at hchild
    obtain ⟨v, hv, -⟩ := hwritten child (hreads child (.inl hchild))
    exact ⟨v, hv⟩
  obtain ⟨vs, hvs⟩ := exists_mapM hchildren
  refine visit_eq he hvs ?_
  intro place hplace
  obtain ⟨v, hv, hmemo⟩ := hwritten place (hreads place hplace)
  rw [hmemo, value?, hv]
  rfl

/-- After the first visits of a tree the memo has a value, or none, for each place visited as
recursion finds it. -/
theorem memoAfter_eq {ids before after : List Place} {memo : Memo}
    (h : ChildrenFirst t.table ids) (hids : ids = before ++ after)
    (hmemo : memoAfter t env before = .ok memo) :
    memo.size = t.size ∧ ∀ place ∈ before, ∃ v,
      recursive t env.withTruthValues (underNumber t (.ofTree t)) place = .ok v ∧
        memo.value? place = v := by
  induction before using List.reverseRecOn generalizing after memo with
  | nil =>
    cases hmemo
    exact ⟨Array.size_replicate, fun _ hplace => absurd hplace List.not_mem_nil⟩
  | append_singleton before id ih =>
    rw [List.append_assoc, List.singleton_append] at hids
    rw [memoAfter_append_singleton] at hmemo
    cases hbefore : memoAfter t env before with
    | error failure =>
      rw [hbefore] at hmemo
      cases hmemo
    | ok memo₁ =>
      obtain ⟨hsize, hwritten⟩ := ih hids hbefore
      replace hmemo : visit t env.withTruthValues (.ofTree t) memo₁ id = .ok memo := by
        rw [hbefore] at hmemo
        exact hmemo
      obtain ⟨e, he⟩ : ∃ e, t.get? id = some e := by
        cases he : t.get? id with
        | none => simp [visit, he] at hmemo
        | some e => exact ⟨e, rfl⟩
      rw [visit_of_written he (fun _ => mem_of_reads h hids he) hwritten] at hmemo
      cases hv : recursive t env.withTruthValues (underNumber t (.ofTree t)) id with
      | error failure =>
        rw [hv] at hmemo
        cases hmemo
      | ok v =>
        rw [hv] at hmemo
        cases hmemo
        have hid : id < memo₁.size := by
          rw [hsize]
          exact (Array.getElem?_eq_some_iff.mp he).1
        refine ⟨Array.size_setIfInBounds.trans hsize, ?_⟩
        intro place hplace
        rw [value?_setIfInBounds hid]
        by_cases heq : place = id
        · subst heq
          exact ⟨v, hv, if_pos rfl⟩
        · rw [if_neg heq]
          refine hwritten place ?_
          simpa [heq] using hplace

theorem setIfInBounds_value? {memo : Memo} {v : Option Value} (h : memo.value? id = v) :
    memo.setIfInBounds id v = memo := by
  refine Array.ext Array.size_setIfInBounds ?_
  intro place hplace hplace'
  by_cases hid : id = place
  · subst hid
    rw [Memo.value?, Array.getD_eq_getD_getElem?, Array.getElem?_eq_getElem hplace'] at h
    rw [Array.getElem_setIfInBounds_self, ← h]
    rfl
  · rw [Array.getElem_setIfInBounds_ne _ hid]

/-- To visit a place again changes nothing. -/
theorem visit_again {ids before after : List Place} {memo : Memo}
    (h : ChildrenFirst t.table ids) (hids : ids = before ++ after)
    (hmemo : memoAfter t env before = .ok memo) (hid : id ∈ before) :
    visit t env.withTruthValues (.ofTree t) memo id = .ok memo := by
  obtain ⟨-, hwritten⟩ := memoAfter_eq h hids hmemo
  obtain ⟨v, hv, hvalue⟩ := hwritten id hid
  obtain ⟨e, he⟩ : ∃ e, t.get? id = some e := by
    cases he : t.get? id with
    | none => simp [recursive_eq, he] at hv
    | some e => exact ⟨e, rfl⟩
  obtain ⟨first, second, rfl⟩ := List.mem_iff_append.mp hid
  rw [List.append_assoc, List.cons_append] at hids
  have hreads : ∀ place, Reads t e place → place ∈ first ++ id :: second :=
    fun _ hplace => List.mem_append_left _ (mem_of_reads h hids he hplace)
  rw [visit_of_written he hreads hwritten, hv]
  exact congrArg Except.ok (setIfInBounds_value? hvalue)

theorem evaluate_eq_memoAfter (t : SyntaxTree) (env : Environment) :
    evaluate t env =
      match memoAfter t env t.postOrder.toList with
      | .error failure => .error failure
      | .ok memo => required t memo.value? t.root := by
  rw [SyntaxTree.toList_postOrder, evaluate, EntryTable.walk_eq_foldlM]
  rfl

/-- The value of a tree, or its failure, is what recursion on its unfolding finds. -/
theorem evaluate_eq_evaluate_unfolded (h : t.TokensAgree) :
    evaluate t env = (t.unfolded t.root).evaluate env := by
  have hmeets : Meets t env.withTruthValues (underNumber t (.ofTree t)) false t.root :=
    meets (fun p hp e he child hchild => underNumber_of_mem_children h hp he hchild)
      (EntryTable.mem_unfolding_self _ _) false underNumber_root
  rw [evaluate_eq, Unfolded.evaluate]
  rcases hmeets with ⟨failure, hrecursive, hvalued⟩ | ⟨v, found, hrecursive, hvalued, hfinds⟩
  · rw [hrecursive, hvalued]
    rfl
  · rw [hrecursive, hvalued]
    exact hfinds.required_eq.symm

/-- A tree evaluates to what plain recursion on its unfolding finds, failures included. The memo
is filled by visits in post-order: to visit a place again leaves it as it is, and what a visit
finds does not depend on places that have not been visited. -/
theorem evaluateTree_eq_unfolded (t : SyntaxTree) (env : Environment) (h : t.TokensAgree) :
    Source.evaluateTree t env =
        ((t.unfolded t.root).evaluate env).mapError (Failure.evaluation · t.source) ∧
      (evaluate t env =
        match memoAfter t env t.postOrder.toList with
        | .error failure => .error failure
        | .ok memo => required t memo.value? t.root) ∧
      t.root ∈ t.postOrder.toList ∧
      ∀ before id after memo, t.postOrder.toList = before ++ id :: after →
        memoAfter t env before = .ok memo →
          (id ∈ before → visit t env.withTruthValues (.ofTree t) memo id = .ok memo) ∧
          ∀ e isNumber written, t.get? id = some e →
            (∀ place ∈ before, written place = memo.value? place) →
              entry t env.withTruthValues isNumber written e =
                entry t env.withTruthValues isNumber memo.value? e := by
  refine ⟨?_, evaluate_eq_memoAfter t env, ?_, ?_⟩
  · rw [Source.evaluateTree, evaluate_eq_evaluate_unfolded h]
    cases (t.unfolded t.root).evaluate env <;> rfl
  · rw [SyntaxTree.toList_postOrder]
    exact EntryTable.mem_unfolding_self _ _
  · intro before id after memo hids hmemo
    rw [SyntaxTree.toList_postOrder] at hids
    have hfirst := childrenFirst_unfolding t.table t.root
    refine ⟨visit_again hfirst hids hmemo, ?_⟩
    intro e isNumber written he hwritten
    exact entry_congr (fun place hplace => hwritten place (mem_of_reads hfirst hids he hplace)) _ _

/-- The tree of `7 & 7` with one number for both operands. -/
def sharedOperand : SyntaxTree where
  source := "7 & 7"
  table := {
    entries := #[
      ⟨.numberLiteral, ⟨0, 1⟩, .token "7"⟩,
      ⟨.number, ⟨0, 1⟩, .node [0]⟩,
      ⟨.symbol .bitwiseAnd, ⟨2, 3⟩, .token "&"⟩,
      ⟨.tierOperator .bitwiseAnd, ⟨2, 3⟩, .node [2]⟩,
      ⟨.repetition .bitwiseAnd, ⟨2, 5⟩, .repetition [⟨3, 1⟩]⟩,
      ⟨.tier .bitwiseAnd, ⟨0, 5⟩, .node [1, 4]⟩]
    child_lt := by decide }
  root := 5

theorem unfolded_sharedOperand :
    sharedOperand.unfolded 5 =
      .node (.tier .bitwiseAnd) ⟨0, 5⟩
        [.node .number ⟨0, 1⟩ [.token .numberLiteral ⟨0, 1⟩ "7"],
          .repetition (.repetition .bitwiseAnd) ⟨2, 5⟩
            [(.node (.tierOperator .bitwiseAnd) ⟨2, 3⟩ [.token (.symbol .bitwiseAnd) ⟨2, 3⟩ "&"],
              .node .number ⟨0, 1⟩ [.token .numberLiteral ⟨0, 1⟩ "7"])]] := by
  have hliteral : sharedOperand.unfolded 0 = _ := SyntaxTree.unfolded_token rfl
  have hnumber : sharedOperand.unfolded 1 = _ := SyntaxTree.unfolded_node rfl
  have hsymbol : sharedOperand.unfolded 2 = _ := SyntaxTree.unfolded_token rfl
  have hoperator : sharedOperand.unfolded 3 = _ := SyntaxTree.unfolded_node rfl
  have hmany : sharedOperand.unfolded 4 = _ := SyntaxTree.unfolded_repetition rfl
  have htier : sharedOperand.unfolded 5 = _ := SyntaxTree.unfolded_node rfl
  simp only [htier, hmany, hoperator, hsymbol, hnumber, hliteral, List.map]

theorem tokensAgree_sharedOperand : sharedOperand.TokensAgree := by
  have hentries : ∀ e ∈ sharedOperand.table.entries.toList, ∀ id ∈ e.children,
      e.rule = .number ↔ id = 0 := by decide
  have hrule : ∀ p e id, sharedOperand.get? p = some e → id ∈ e.children →
      (e.rule = .number ↔ id = 0) := fun _ e id he hmem =>
    hentries e (Array.mem_toList_iff.mpr (Array.mem_of_getElem? he)) id hmem
  intro id _
  by_cases hid : id = 0
  · exact .inl fun p e he hmem => (hrule p e id he hmem).mpr hid
  · exact .inr fun p e he hmem hnumber => hid ((hrule p e id he hmem).mp hnumber)

theorem evaluateTree_sharedOperand :
    sharedOperand.TokensAgree ∧
      Source.evaluateTree sharedOperand .empty = .ok (.integer 7) := by
  refine ⟨tokensAgree_sharedOperand, ?_⟩
  rw [(evaluateTree_eq_unfolded sharedOperand .empty tokensAgree_sharedOperand).1]
  rw [show sharedOperand.root = 5 from rfl, unfolded_sharedOperand]
  rfl

end Evaluation

end Reckon
