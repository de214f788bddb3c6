import Mathlib.Logic.Relation
import Reckon.Proofs.Syntax.Walk

/-!
The visits that a walk makes. Its loop cannot go on for ever, since every turn
takes one off the number of stack entries that the stack stands for. Visits are
made in the recursive post-order, each from the state that the one before it
left, and none is made after one that fails. A walk that writes its visits down
makes the same ones, so what it has written at its end is the list of them.
-/

namespace Reckon

namespace EntryTable

/-- The post-order by the shape of the entry at a place: children in source order, an operator
before its operand, and nothing below a place outside the table. -/
theorem unfolding_eq_of_shape (t : EntryTable) (id : Place) :
    t.unfolding id =
      match (t.get? id).map Entry.shape with
      | none => [id]
      | some (.token _) => [id]
      | some (.node children) => children.flatMap t.unfolding ++ [id]
      | some (.repetition groups) =>
        groups.flatMap (fun g => t.unfolding g.operator ++ t.unfolding g.operand) ++ [id] := by
  rw [unfolding_eq, children]
  cases t.get? id with
  | none => rfl
  | some e =>
    simp only [Option.map_some, Entry.children]
    cases e.shape with
    | token text => rfl
    | node children => rfl
    | repetition groups =>
      simp only [Shape.children, List.flatMap_assoc, List.flatMap_cons, List.flatMap_nil,
        List.append_nil]

variable {σ ε : Type} {t : EntryTable} {visit : σ → Place → Except ε σ}

/-- One turn of the loop of a walk, from a stack and a state to the next: the entry on top is
opened, which puts its children above it, or it is visited. -/
inductive Turn (t : EntryTable) (visit : σ → Place → Except ε σ) :
    List Pending × σ → List Pending × σ → Prop
  | opens (id : Place) (stack : List Pending) (state : σ) :
      Turn t visit (.opening id :: stack, state)
        ((t.children id).map .opening ++ .visiting id :: stack, state)
  | visits {id : Place} {state state' : σ} (stack : List Pending)
      (h : visit state id = .ok state') :
      Turn t visit (.visiting id :: stack, state) (stack, state')

/-- Where no turn is left: the stack is empty, or the visit on top of it fails. -/
def Ends (visit : σ → Place → Except ε σ) : List Pending × σ → Except ε σ → Prop
  | ([], state), outcome => outcome = .ok state
  | (.visiting id :: _, state), outcome => ∃ e, visit state id = .error e ∧ outcome = .error e
  | (.opening _ :: _, _), _ => False

theorem Turn.stackLength_lt {work work' : List Pending × σ} (h : Turn t visit work work') :
    t.stackLength work'.1 < t.stackLength work.1 := by
  cases h with
  | opens id stack state =>
    have hopening := t.stackLength_opening (t.children id) (.visiting id :: stack) 2
    rw [← walkLength_eq] at hopening
    simp only [stackLength] at hopening ⊢
    omega
  | visits stack h =>
    simp only [stackLength]
    omega

/-- The loop does not go on for ever. -/
theorem wellFounded_turn (t : EntryTable) (visit : σ → Place → Except ε σ) :
    WellFounded fun work' work => Turn t visit work work' := by
  have hmeasure := (measure fun work : List Pending × σ => t.stackLength work.1).wf
  exact Subrelation.wf Turn.stackLength_lt hmeasure

/-- Turns lead to the end whose outcome the walk gives. -/
theorem exists_ends (stack : List Pending) (state : σ) :
    ∃ work, Relation.ReflTransGen (Turn t visit) (stack, state) work ∧
      Ends visit work (t.walkStack visit stack state) := by
  fun_induction walkStack t visit stack state with
  | case1 state => exact ⟨([], state), .refl, rfl⟩
  | case2 id stack state e he => exact ⟨(.visiting id :: stack, state), .refl, e, he, rfl⟩
  | case3 id stack state state' hstate ih =>
    obtain ⟨work, hturns, hends⟩ := ih
    exact ⟨work, .head (.visits stack hstate) hturns, hends⟩
  | case4 id stack state ih =>
    obtain ⟨work, hturns, hends⟩ := ih
    exact ⟨work, .head (.opens id stack state) hturns, hends⟩

/-- Visits made one after the other, each from the state that the one before it left. The outcome
is the last state, or the failure of the last visit. -/
inductive Visits (visit : σ → Place → Except ε σ) : σ → List Place → Except ε σ → Prop
  | done (state : σ) : Visits visit state [] (.ok state)
  | fails {state : σ} {id : Place} {e : ε} (h : visit state id = .error e) :
      Visits visit state [id] (.error e)
  | next {state state' : σ} {id : Place} {ids : List Place} {outcome : Except ε σ}
      (h : visit state id = .ok state') (rest : Visits visit state' ids outcome) :
      Visits visit state (id :: ids) outcome

/-- A visit that writes its place down behind those of the visits before it, beside the state that
it leaves or beside its failure. -/
def noting (visit : σ → Place → Except ε σ) (noted : σ × List Place) (id : Place) :
    Except (ε × List Place) (σ × List Place) :=
  match visit noted.1 id with
  | .ok state => .ok (state, noted.2 ++ [id])
  | .error e => .error (e, noted.2 ++ [id])

/-- An outcome with the places that have been written down. -/
def noted (ids : List Place) : Except ε σ → Except (ε × List Place) (σ × List Place)
  | .ok state => .ok (state, ids)
  | .error e => .error (e, ids)

/-- Visits in turn are made from the first on, to the last of them or to the first that fails, and
they are the ones written down. -/
theorem exists_visits (visit : σ → Place → Except ε σ) (ids before : List Place) (state : σ) :
    ∃ visited, visited <+: ids ∧ Visits visit state visited (ids.foldlM visit state) ∧
      (visited = ids ∨ ∃ e, ids.foldlM visit state = .error e) ∧
      ids.foldlM (noting visit) (state, before) =
        noted (before ++ visited) (ids.foldlM visit state) := by
  induction ids generalizing before state with
  | nil =>
    refine ⟨[], List.prefix_rfl, .done state, .inl rfl, ?_⟩
    rw [List.append_nil]
    rfl
  | cons id ids ih =>
    rw [List.foldlM_cons, List.foldlM_cons, noting]
    cases hvisit : visit state id with
    | error e =>
      exact ⟨[id], List.prefix_append [id] ids, .fails hvisit, .inr ⟨e, rfl⟩, rfl⟩
    | ok state' =>
      obtain ⟨visited, hprefix, hvisits, hall, hnoted⟩ := ih (before ++ [id]) state'
      refine ⟨id :: visited, ?_, .next hvisit hvisits, ?_, ?_⟩
      · rwa [List.prefix_cons_inj]
      · exact hall.imp_left (congrArg (id :: ·))
      · rw [List.append_assoc, List.singleton_append] at hnoted
        exact hnoted

/-- The loop of a walk comes to an end, and until then the places visited are those of the
recursive post-order from its start: all of them, or those up to the first whose visit fails. -/
theorem walk_visits (t : EntryTable) (start : Place) (visit : σ → Place → Except ε σ)
    (state : σ) :
    (∀ id, t.unfolding id =
      match (t.get? id).map Entry.shape with
      | none => [id]
      | some (.token _) => [id]
      | some (.node children) => children.flatMap t.unfolding ++ [id]
      | some (.repetition groups) =>
        groups.flatMap (fun g => t.unfolding g.operator ++ t.unfolding g.operand) ++ [id]) ∧
    (WellFounded fun work' work => Turn t visit work work') ∧
    (∃ work, Relation.ReflTransGen (Turn t visit) ([.opening start], state) work ∧
      Ends visit work (t.walk start visit state)) ∧
    ∃ visited, visited <+: t.unfolding start ∧
      Visits visit state visited (t.walk start visit state) ∧
      (visited = t.unfolding start ∨ ∃ e, t.walk start visit state = .error e) ∧
      t.walk start (noting visit) (state, []) = noted visited (t.walk start visit state) := by
  refine ⟨t.unfolding_eq_of_shape, wellFounded_turn t visit, exists_ends _ _, ?_⟩
  obtain ⟨visited, hprefix, hvisits, hall, hnoted⟩ :=
    exists_visits visit (t.unfolding start) [] state
  simp only [walk_eq_foldlM]
  exact ⟨visited, hprefix, hvisits, hall, hnoted⟩

end EntryTable

end Reckon
