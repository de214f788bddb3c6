import Reckon.Proofs.Evaluation.Sharing
import Reckon.Proofs.Evaluation.Spans
import Reckon.Proofs.Expression.Unambiguous
import Reckon.Proofs.Syntax.Placement
import Reckon.Source

/-!
Evaluation of the trees of the grammar. The unfolding of a tree that was read
is the tree that was matched, so its value is that of the matched tree by plain
recursion. Texts whose tokens say the same have the same value, or fail for the
same cause.
-/

namespace Reckon

open Grammar

/-- Trees two by two. -/
def Unfolded.pairs : List Unfolded → List (Unfolded × Unfolded)
  | operator :: operand :: rest => (operator, operand) :: pairs rest
  | _ => []

namespace ParseTree

mutual

/-- A matched tree as a tree to be evaluated. -/
def unfolded : ParseTree → Unfolded
  | leaf rule span text => .token rule span text
  | branch rule span children =>
    if rule.role = .repetition then .repetition rule span (Unfolded.pairs (unfoldedAll children))
    else .node rule span (unfoldedAll children)

def unfoldedAll : List ParseTree → List Unfolded
  | [] => []
  | tree :: rest => tree.unfolded :: unfoldedAll rest

end

theorem pairs_bareAll (us : List Unfolded) :
    Unfolded.pairs (Unfolded.bareAll us) = Unfolded.bareGroups (Unfolded.pairs us) := by
  fun_induction Unfolded.pairs us with
  | case1 operator operand rest ih =>
    simp only [Unfolded.bareAll, Unfolded.pairs, Unfolded.bareGroups, ih]
  | case2 us h =>
    match us with
    | [] => rfl
    | [_] => rfl
    | operator :: operand :: rest => exact absurd rfl (h operator operand rest)

mutual

theorem unfolded_bare (tree : ParseTree) : tree.bare.unfolded = tree.unfolded.bare := by
  cases tree with
  | leaf rule span text => rfl
  | branch rule span children =>
    simp only [bare, unfolded, unfoldedAll_bareAll children]
    split
    · rw [pairs_bareAll]
      rfl
    · rfl

theorem unfoldedAll_bareAll (trees : List ParseTree) :
    unfoldedAll (bareAll trees) = Unfolded.bareAll (unfoldedAll trees) := by
  cases trees with
  | nil => rfl
  | cons tree rest =>
    simp only [bareAll, unfoldedAll, Unfolded.bareAll, unfolded_bare tree,
      unfoldedAll_bareAll rest]

end

variable {t : SyntaxTree} {isNumber : Place → Bool}

theorem pairs_map_unfolded {ids : List Place} {groups : List OperatorGroup}
    (h : OperatorGroup.ofChildren? ids = some groups) :
    Unfolded.pairs (ids.map t.unfolded) =
      groups.map fun g => (t.unfolded g.operator, t.unfolded g.operand) := by
  fun_induction OperatorGroup.ofChildren? ids generalizing groups with
  | case1 =>
    cases h
    rfl
  | case2 => cases h
  | case3 operator operand rest ih =>
    obtain ⟨more, hmore, rfl⟩ := Option.map_eq_some_iff.mp h
    simp only [List.map_cons, Unfolded.pairs, ih hmore]

mutual

/-- Where a tree stands in a table, the table unfolds to it. -/
theorem unfolded_eq (tree : ParseTree) {counts : Bool} {id : Place}
    (h : tree.StandsAt t isNumber counts id) : t.unfolded id = tree.unfolded := by
  cases tree with
  | leaf rule span text => exact SyntaxTree.unfolded_token h.1
  | branch rule span children =>
    obtain ⟨ids, hid, heven, hchildren⟩ := h
    have hall := unfoldedAll_eq children hchildren
    rw [shape] at hid
    rw [unfolded, ← hall]
    split at hid
    · next hrule =>
      obtain ⟨groups, hgroups⟩ := OperatorGroup.exists_ofChildren? (heven hrule)
      rw [hgroups] at hid
      rw [if_pos hrule, SyntaxTree.unfolded_repetition hid, pairs_map_unfolded hgroups]
      rfl
    · next hrule => rw [if_neg hrule, SyntaxTree.unfolded_node hid]

theorem unfoldedAll_eq (trees : List ParseTree) {counts : Bool} {ids : List Place}
    (h : StandAt t isNumber counts trees ids) : ids.map t.unfolded = unfoldedAll trees := by
  cases trees with
  | nil =>
    obtain rfl : ids = [] := h
    rfl
  | cons tree rest =>
    obtain ⟨id, more, rfl, htree, hrest⟩ := h
    rw [List.map_cons, unfolded_eq tree htree, unfoldedAll_eq rest hrest, unfoldedAll]

end

end ParseTree

namespace SyntaxTree.IsOf

variable {t : SyntaxTree} {tree : ParseTree} {source : String}

/-- A tree that was read has no token under a number and under another entry. -/
theorem tokensAgree (h : t.IsOf tree source) : t.TokensAgree := by
  intro id _
  have hrule : ∀ p e, t.get? p = some e → id ∈ e.children →
      decide ((Parents.ofTree t).parentRule? t id = some .number) = decide (e.rule = .number) := by
    intro p e he hid
    rw [← Evaluation.children_of_get? he] at hid
    exact h.countsNumbers he hid
  by_cases hnumber : (Parents.ofTree t).parentRule? t id = some .number
  · exact .inl fun p e he hid => by simpa [hnumber] using hrule p e he hid
  · exact .inr fun p e he hid => by simpa [hnumber] using hrule p e he hid

/-- A tree that was read evaluates as the tree that was matched. -/
theorem evaluate_eq (h : t.IsOf tree source) (env : Environment) :
    Evaluation.evaluate t env = tree.unfolded.evaluate env := by
  rw [Evaluation.evaluate_eq_evaluate_unfolded h.tokensAgree,
    ParseTree.unfolded_eq tree (h.standsAt h.countsNumbers)]

end SyntaxTree.IsOf

namespace Source

variable {source : String} {limit : Nat} {t : SyntaxTree} {tree : ParseTree}

/-- A text that is read has the result of its tree. -/
theorem evaluate_of_parse (ht : SyntaxTree.parse source limit = .ok t) (h : t.IsOf tree source)
    (env : Environment) : evaluate source env limit =
      (tree.unfolded.evaluate env).mapError fun error => .evaluation error source := by
  simp only [evaluate, parse, ht, evaluateTree, h.evaluate_eq, h.source_eq]
  cases tree.unfolded.evaluate env <;> rfl

/-- A text is not read, or has the result of its tree. -/
theorem parse_fails_or_evaluates (source : String) (env : Environment) (limit : Nat) :
    (∃ error, SyntaxTree.parse source limit = .error error ∧
        evaluate source env limit = .error (.parse error source)) ∨
      ∃ t tree, SyntaxTree.parse source limit = .ok t ∧ t.IsOf tree source ∧
        evaluate source env limit =
          (tree.unfolded.evaluate env).mapError fun error => .evaluation error source := by
  cases ht : SyntaxTree.parse source limit with
  | error error => exact .inl ⟨error, rfl, by simp only [evaluate, parse, ht]⟩
  | ok t =>
    obtain ⟨tree, hof⟩ := SyntaxTree.isOf_of_parse ht
    exact .inr ⟨t, tree, rfl, hof, evaluate_of_parse ht hof env⟩

end Source

end Reckon
