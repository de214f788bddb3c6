import Reckon.Syntax.Lowering
import Reckon.Proofs.Grammar.Derivation

/-!
Where the lowering puts a tree. The entries of a tree fill one stretch of the
table, first those of its children in order and then its own, so that places
are post-order positions. The only trees that cannot be lowered are those with
a repetition of an odd number of children, and the grammar matches none.
-/

namespace Reckon

namespace ParseTree

mutual

/-- The number of trees below a tree. -/
def descendants : ParseTree → Nat
  | leaf _ _ _ => 0
  | branch _ _ children => countOf children

def countOf : List ParseTree → Nat
  | [] => 0
  | tree :: rest => tree.descendants + 1 + countOf rest

end

/-- The places of some trees whose entries start at `base`. -/
def placesOf (base : Nat) : List ParseTree → List Place
  | [] => []
  | tree :: rest => (base + tree.descendants) :: placesOf (base + tree.descendants + 1) rest

/-- The shape of the entry of a rule over some children. -/
def shape (rule : Rule) (ids : List Place) : Shape :=
  if rule.role = .repetition then .repetition ((OperatorGroup.ofChildren? ids).getD [])
  else .node ids

mutual

/-- The entries of a tree, the first of which has the place `base`. -/
def entries (base : Nat) : ParseTree → List Entry
  | leaf rule span text => [⟨rule, span, .token text⟩]
  | branch rule span children =>
    entriesOf base children ++ [⟨rule, span, shape rule (placesOf base children)⟩]

def entriesOf (base : Nat) : List ParseTree → List Entry
  | [] => []
  | tree :: rest => tree.entries base ++ entriesOf (base + tree.descendants + 1) rest

end

mutual

/-- The children of every repetition pair up. -/
def Paired : ParseTree → Prop
  | leaf _ _ _ => True
  | branch rule _ children =>
    (rule.role = .repetition → children.length % 2 = 0) ∧ PairedAll children

def PairedAll : List ParseTree → Prop
  | [] => True
  | tree :: rest => tree.Paired ∧ PairedAll rest

end

mutual

theorem length_entries (base : Nat) (tree : ParseTree) :
    (tree.entries base).length = tree.descendants + 1 := by
  cases tree with
  | leaf rule span text => rfl
  | branch rule span children =>
    rw [entries, descendants, List.length_append, List.length_singleton, length_entriesOf]

theorem length_entriesOf (base : Nat) (trees : List ParseTree) :
    (entriesOf base trees).length = countOf trees := by
  cases trees with
  | nil => rfl
  | cons tree rest =>
    rw [entriesOf, countOf, List.length_append, length_entries, length_entriesOf]

end

@[simp] theorem length_placesOf (base : Nat) (trees : List ParseTree) :
    (placesOf base trees).length = trees.length := by
  induction trees generalizing base with
  | nil => rfl
  | cons tree rest ih => rw [placesOf, List.length_cons, List.length_cons, ih]

end ParseTree

/-- An even number of children pairs up. -/
theorem OperatorGroup.exists_ofChildren? {ids : List Place} (h : ids.length % 2 = 0) :
    ∃ groups, ofChildren? ids = some groups := by
  fun_induction ofChildren? ids with
  | case1 => exact ⟨[], rfl⟩
  | case2 id => simp at h
  | case3 operator operand rest ih =>
    obtain ⟨groups, hgroups⟩ := ih (by simp only [List.length_cons] at h; omega)
    exact ⟨_, by rw [hgroups]; rfl⟩

/-- The children of groups pair up to the groups. -/
theorem OperatorGroup.ofChildren?_children (groups : List OperatorGroup) :
    ofChildren? (Shape.repetition groups).children = some groups := by
  induction groups with
  | nil => rfl
  | cons group groups ih =>
    have hchildren : (Shape.repetition (group :: groups)).children =
        group.operator :: group.operand :: (Shape.repetition groups).children := rfl
    rw [hchildren, ofChildren?, ih]
    rfl

namespace ParseTree

theorem children_shape {rule : Rule} {ids : List Place}
    (h : rule.role = .repetition → ids.length % 2 = 0) : (shape rule ids).children = ids := by
  unfold shape
  split
  · next hrule =>
    obtain ⟨groups, hgroups⟩ := OperatorGroup.exists_ofChildren? (h hrule)
    rw [hgroups]
    exact OperatorGroup.children_of_ofChildren? hgroups
  · rfl

end ParseTree

namespace Lowering

open ParseTree

/-- A lowering has come from another by adding entries, with these without a parent now. -/
def Grows (s s' : Lowering) (added : List Entry) (built : List Place) : Prop :=
  s'.table.entries.toList = s.table.entries.toList ++ added ∧ s'.built = built

theorem Grows.size_eq {s s' : Lowering} {added : List Entry} {built : List Place}
    (h : s.Grows s' added built) : s'.table.size = s.table.size + added.length := by
  have hlength := congrArg List.length h.1
  rwa [List.length_append, Array.length_toList, Array.length_toList] at hlength

theorem Grows.trans {s s' s'' : Lowering} {first second : List Entry} {built built' : List Place}
    (h : s.Grows s' first built) (h' : s'.Grows s'' second built') :
    s.Grows s'' (first ++ second) built' := by
  obtain ⟨hentries, -⟩ := h
  obtain ⟨hentries', hbuilt⟩ := h'
  exact ⟨by rw [hentries', hentries, List.append_assoc], hbuilt⟩

theorem grows_own (s : Lowering) (e : Entry) (count : Nat)
    (h : ∀ child ∈ e.children, child ∈ s.built) :
    s.Grows (s.own e count h) [e] (s.table.size :: s.built.drop count) :=
  ⟨Array.toList_push, rfl⟩

/-- The entry of a rule is made from the entries built last, which are its children. -/
theorem leave_eq_ok {s : Lowering} {rule : Rule} {ids rest : List Place} (span : Span)
    (hbuilt : s.built = ids.reverse ++ rest)
    (hrule : rule.role = .repetition → ids.length % 2 = 0) :
    ∃ s', s.leave rule span ids.length = .ok s' ∧
      s.Grows s' [⟨rule, span, shape rule ids⟩] (s.table.size :: rest) := by
  have htake : (s.built.take ids.length).reverse = ids := by
    rw [hbuilt, ← List.length_reverse, List.take_left, List.reverse_reverse]
  have hdrop : s.built.drop ids.length = rest := by
    rw [hbuilt, ← List.length_reverse, List.drop_left]
  unfold leave
  by_cases hrole : rule.role = .repetition
  · rw [if_pos hrole]
    split
    · next groups hgroups =>
      rw [htake] at hgroups
      refine ⟨_, rfl, ?_⟩
      rw [shape, if_pos hrole, hgroups, ← hdrop]
      exact s.grows_own _ _ _
    · next hnone =>
      obtain ⟨groups, hgroups⟩ := OperatorGroup.exists_ofChildren? (hrule hrole)
      rw [htake, hgroups] at hnone
      cases hnone
  · rw [if_neg hrole]
    refine ⟨_, rfl, ?_⟩
    have hgrows := s.grows_own ⟨rule, span, .node (s.built.take ids.length).reverse⟩ ids.length
      (fun _ h => List.mem_of_mem_take (List.mem_reverse.mp h))
    rw [hdrop] at hgrows
    exact ⟨hgrows.1.trans (by rw [shape, if_neg hrole, htake]), hgrows.2⟩

mutual

/-- Taking up a tree adds its entries; the last of them is left without a parent. -/
theorem run_enter (tree : ParseTree) (htree : tree.Paired) (s : Lowering) (steps : List Step) :
    ∃ s', s.run (.enter tree :: steps) = s'.run steps ∧
      s.Grows s' (tree.entries s.table.size) ((s.table.size + tree.descendants) :: s.built) := by
  cases tree with
  | leaf rule span text =>
    refine ⟨s.token rule span text, by rw [run], ?_⟩
    exact s.grows_own ⟨rule, span, .token text⟩ 0 _
  | branch rule span children =>
    obtain ⟨hrule, hchildren⟩ := htree
    obtain ⟨s₁, hrun, hgrows⟩ :=
      run_enterAll children hchildren s (.leave rule span children.length :: steps)
    have hids : (placesOf s.table.size children).length = children.length :=
      length_placesOf _ _
    rw [← hids] at hrule
    obtain ⟨s₂, hleave, hgrows'⟩ := leave_eq_ok span hgrows.2 hrule
    rw [hids] at hleave
    refine ⟨s₂, ?_, ?_⟩
    · rw [run, hrun, run, hleave]
    · have h := hgrows.trans hgrows'
      rwa [hgrows.size_eq, length_entriesOf] at h

theorem run_enterAll (trees : List ParseTree) (htrees : PairedAll trees) (s : Lowering)
    (steps : List Step) :
    ∃ s', s.run (enterAll trees steps) = s'.run steps ∧
      s.Grows s' (entriesOf s.table.size trees)
        ((placesOf s.table.size trees).reverse ++ s.built) := by
  cases trees with
  | nil => exact ⟨s, rfl, (List.append_nil _).symm, rfl⟩
  | cons tree rest =>
    obtain ⟨htree, hrest⟩ := htrees
    obtain ⟨s₁, hrun, hgrows⟩ := run_enter tree htree s (enterAll rest steps)
    obtain ⟨s₂, hrun', hgrows'⟩ := run_enterAll rest hrest s₁ steps
    refine ⟨s₂, hrun.trans hrun', ?_⟩
    have hsize := hgrows.size_eq
    rw [length_entries, ← Nat.add_assoc] at hsize
    have h := hgrows.trans hgrows'
    rw [hsize, hgrows.2] at h
    simpa only [entriesOf, placesOf, List.reverse_cons, List.append_assoc,
      List.singleton_append] using h

end

end Lowering

/-- A tree whose repetitions pair up is lowered to its entries, with its own at the end. -/
theorem SyntaxTree.ofParseTree_eq_ok (source : String) {tree : ParseTree} (h : tree.Paired) :
    ∃ t, ofParseTree source tree = .ok t ∧ t.source = source ∧
      t.table.entries.toList = tree.entries 0 ∧ t.root = tree.descendants := by
  obtain ⟨s, hrun, hentries, hbuilt⟩ := Lowering.run_enter tree h .start []
  have hsize : Lowering.start.table.size = 0 := rfl
  rw [Lowering.run] at hrun
  rw [hsize, Nat.zero_add] at hbuilt
  refine ⟨⟨source, s.table, s.built.headD 0⟩, ?_, rfl, hentries, ?_⟩
  · simp only [ofParseTree, hrun]
  · simp only [hbuilt, List.headD_cons]

namespace Grammar

open ParseTree

@[simp] theorem Cursor.paired_leaf (c : Cursor) (r : Rule) (lexeme rest : List Char) :
    (c.leaf r lexeme rest).Paired := trivial

theorem Cursor.paired_branch (c stop : Cursor) {r : Rule} {children : List ParseTree}
    (hrule : r.role ≠ .repetition) (h : PairedAll children) :
    (c.branch stop r children).Paired := ⟨fun h => absurd h hrule, h⟩

theorem Cursor.paired_atom {c stop : Cursor} {children : List ParseTree}
    (h : PairedAll children) : (c.atom stop children).Paired :=
  paired_branch c stop nofun ⟨paired_branch c stop nofun h, trivial⟩

/-- The rounds of a repetition are operators each with an operand. -/
theorem Derives.paired {p : Part} {c stop : Cursor} {trees : List ParseTree}
    (h : Derives p c trees stop) :
    PairedAll trees ∧ (p.expecting = .operator → trees.length % 2 = 0) := by
  induction h with
  | @number c lexeme rest hnumber =>
    have hbranch : (c.branch (c.after lexeme rest) .number
        [c.leaf .numberLiteral lexeme rest]).Paired :=
      c.paired_branch _ nofun ⟨trivial, trivial⟩
    exact ⟨⟨Cursor.paired_atom ⟨hbranch, trivial⟩, trivial⟩, nofun⟩
  | name =>
    exact ⟨⟨Cursor.paired_atom ⟨trivial, trivial⟩, trivial⟩, nofun⟩
  | indexed _ _ _ _ _ ih =>
    obtain ⟨⟨hindex, -⟩, -⟩ := ih
    exact ⟨⟨Cursor.paired_atom ⟨trivial, trivial, hindex, trivial, trivial⟩, trivial⟩, nofun⟩
  | group _ _ _ ih =>
    obtain ⟨⟨hinner, -⟩, -⟩ := ih
    exact ⟨⟨Cursor.paired_atom ⟨trivial, hinner, trivial, trivial⟩, trivial⟩, nofun⟩
  | @signed c stop s rest tree _ _ ih =>
    obtain ⟨⟨hoperand, -⟩, -⟩ := ih
    have hoperator : (c.branch (c.after s.text rest) .unaryOperator
        [c.leaf (.symbol s) s.text rest]).Paired :=
      c.paired_branch _ nofun ⟨trivial, trivial⟩
    exact ⟨⟨c.paired_branch stop nofun ⟨hoperator, hoperand, trivial⟩, trivial⟩, nofun⟩
  | bare _ ih => exact ih
  | @tier c d stop t _ _ trees _ _ ihFirst ihRounds =>
    obtain ⟨⟨hfirst, -⟩, -⟩ := ihFirst
    obtain ⟨hrounds, heven⟩ := ihRounds
    have hrepetition : (d.skipLayout.branch stop (.repetition t) trees).Paired :=
      ⟨fun _ => heven rfl, hrounds⟩
    exact ⟨⟨c.paired_branch stop nofun ⟨hfirst, hrepetition, trivial⟩, trivial⟩, nofun⟩
  | done => exact ⟨trivial, fun _ => rfl⟩
  | @round _ d _ _ t _ s rest _ _ _ _ _ _ _ ihOperand ihRounds =>
    obtain ⟨⟨hoperand, -⟩, -⟩ := ihOperand
    obtain ⟨hrounds, heven⟩ := ihRounds
    have hoperator : (d.branch (d.after s.text rest) (.tierOperator t)
        [d.leaf (.symbol s) s.text rest]).Paired :=
      d.paired_branch _ nofun ⟨trivial, trivial⟩
    refine ⟨⟨hoperator, hoperand, hrounds⟩, fun h => ?_⟩
    have heven' := heven h
    simp only [List.cons_append, List.nil_append, List.length_cons]
    omega
  | @expression c stop _ _ ih =>
    exact ⟨⟨c.paired_branch stop nofun ih.1, trivial⟩, nofun⟩

end Grammar

end Reckon
