import Mathlib.Logic.Relation
import Reckon.Proofs.Evaluation.Trees

/-!
The lowering loses, doubles and reorders nothing. Its two stacks are followed
step by step: what the steps ahead will take is always there, and at the end
one entry is left. The table unfolds to the tree that was matched, and its
places are the positions of a post-order walk, so each entry has one parent.
-/

namespace Reckon

namespace Lowering

/-- One step of the work: the step on top of the stack is taken. -/
inductive Advances : Lowering × List Step → Lowering × List Step → Prop
  | token (s : Lowering) (rule : Rule) (span : Span) (text : String) (steps : List Step) :
      Advances (s, .enter (.leaf rule span text) :: steps) (s.token rule span text, steps)
  | enter (s : Lowering) (rule : Rule) (span : Span) (children : List ParseTree)
      (steps : List Step) :
      Advances (s, .enter (.branch rule span children) :: steps)
        (s, enterAll children (.leave rule span children.length :: steps))
  | leave {s s' : Lowering} {rule : Rule} {span : Span} {count : Nat} (steps : List Step)
      (h : s.leave rule span count = .ok s') :
      Advances (s, .leave rule span count :: steps) (s', steps)

/-- What a stack of steps can be taken with: `count` entries without a parent are there for the
steps, each tree adds one, and each rule takes its children from them and adds its own. One entry
is left in the end. -/
def Balanced : Nat → List Step → Prop
  | count, [] => count = 1
  | count, .enter tree :: steps => tree.Paired ∧ Balanced (count + 1) steps
  | count, .leave rule _ taken :: steps =>
    taken ≤ count ∧ (rule.role = .repetition → taken % 2 = 0) ∧ Balanced (count - taken + 1) steps

variable {s s' : Lowering} {steps steps' : List Step} {rule : Rule} {span : Span} {count : Nat}

/-- The trees of a row add one entry each. -/
theorem balanced_enterAll {trees : List ParseTree} (htrees : ParseTree.PairedAll trees)
    (h : Balanced (count + trees.length) steps) : Balanced count (enterAll trees steps) := by
  induction trees generalizing count with
  | nil => exact h
  | cons tree rest ih =>
    obtain ⟨htree, hrest⟩ := htrees
    rw [List.length_cons, Nat.add_comm rest.length, ← Nat.add_assoc] at h
    exact ⟨htree, ih hrest h⟩

/-- A rule whose children are there, and pair up where it is a repetition, is made an entry. -/
theorem exists_leave_eq_ok (hcount : count ≤ s.built.length)
    (heven : rule.role = .repetition → count % 2 = 0) :
    ∃ s', s.leave rule span count = .ok s' ∧ s'.built.length = s.built.length - count + 1 := by
  have hlength : (s.built.take count).reverse.length = count := by
    rw [List.length_reverse, List.length_take, Nat.min_eq_left hcount]
  have hbuilt : s.built = (s.built.take count).reverse.reverse ++ s.built.drop count := by
    rw [List.reverse_reverse, List.take_append_drop]
  obtain ⟨s', hleave, -, hbuilt'⟩ := leave_eq_ok span hbuilt (by rwa [hlength])
  rw [hlength] at hleave
  refine ⟨s', hleave, ?_⟩
  rw [hbuilt', List.length_cons, List.length_drop]

/-- A step leaves what the steps behind it will take. -/
theorem Advances.balanced (h : Advances (s, steps) (s', steps'))
    (hbalanced : Balanced s.built.length steps) : Balanced s'.built.length steps' := by
  cases h with
  | token rule span text => exact hbalanced.2
  | enter rule span children steps =>
    obtain ⟨⟨heven, hchildren⟩, hsteps⟩ := hbalanced
    refine balanced_enterAll hchildren ⟨Nat.le_add_left _ _, heven, ?_⟩
    rwa [Nat.add_sub_cancel]
  | leave _ hleave =>
    obtain ⟨hcount, heven, hsteps⟩ := hbalanced
    obtain ⟨s'', hleave', hlength⟩ := exists_leave_eq_ok hcount heven
    rw [hleave] at hleave'
    obtain rfl := Except.ok.inj hleave'
    rwa [hlength]

/-- What was balanced stays so all along. -/
theorem balanced_of_advances {work work' : Lowering × List Step}
    (h : Relation.ReflTransGen Advances work work')
    (hbalanced : Balanced work.1.built.length work.2) : Balanced work'.1.built.length work'.2 := by
  induction h with
  | refl => exact hbalanced
  | tail _ hstep ih => exact hstep.balanced ih

/-- Steps are what a run takes. -/
theorem Advances.run_eq (h : Advances (s, steps) (s', steps')) : s.run steps = s'.run steps' := by
  cases h with
  | token => rw [run]
  | enter => rw [run]
  | leave _ hleave => rw [run, hleave]

/-- A run comes to its end by steps, and they lead to no other end. -/
theorem run_eq_ok_iff : s.run steps = .ok s' ↔
    Relation.ReflTransGen Advances (s, steps) (s', []) := by
  constructor
  · intro h
    fun_induction run s steps with
    | case1 s =>
      obtain rfl := Except.ok.inj h
      exact .refl
    | case2 s rule span text steps ih => exact .head (.token s rule span text steps) (ih h)
    | case3 s rule span children steps ih => exact .head (.enter s rule span children steps) (ih h)
    | case4 => cases h
    | case5 s rule span count steps s'' hleave ih => exact .head (.leave steps hleave) (ih h)
  · intro h
    have hrun : ∀ work, Relation.ReflTransGen Advances work (s', []) →
        work.1.run work.2 = .ok s' := by
      intro work hwork
      induction hwork using Relation.ReflTransGen.head_induction_on with
      | refl => rw [run]
      | head hstep _ ih => rw [hstep.run_eq, ih]
    exact hrun _ h

end Lowering

/-- A tree is lowered to a syntax tree: the steps come to an end, at every end the root alone is
left without a parent, and on the way every rule finds its children and is made an entry. -/
structure ParseTree.LowersTo (tree : ParseTree) (t : SyntaxTree) : Prop where
  ends : ∃ s, Relation.ReflTransGen Lowering.Advances (.start, [.enter tree]) (s, [])
  built_eq : ∀ s, Relation.ReflTransGen Lowering.Advances (.start, [.enter tree]) (s, []) →
    s.table = t.table ∧ s.built = [t.root]
  leave_ok : ∀ s rule span count steps,
    Relation.ReflTransGen Lowering.Advances (.start, [.enter tree])
      (s, .leave rule span count :: steps) →
    count ≤ s.built.length ∧ ∃ s', s.leave rule span count = .ok s'

/-- Trees whose repetitions pair up are lowered to what the lowering makes of them. -/
theorem ParseTree.lowersTo_of_paired {tree : ParseTree} {t : SyntaxTree} {source : String}
    (hpaired : tree.Paired) (h : SyntaxTree.ofParseTree source tree = .ok t) :
    tree.LowersTo t := by
  have hbalanced : ∀ {work}, Relation.ReflTransGen Lowering.Advances (.start, [.enter tree]) work →
      Lowering.Balanced work.1.built.length work.2 := fun hwork =>
    Lowering.balanced_of_advances hwork ⟨hpaired, rfl⟩
  have hroot : ∀ {s}, Lowering.start.run [.enter tree] = .ok s →
      s.table = t.table ∧ t.root = s.built.headD 0 := by
    intro s hrun
    rw [SyntaxTree.ofParseTree, hrun] at h
    cases h
    exact ⟨rfl, rfl⟩
  constructor
  · cases hrun : Lowering.start.run [.enter tree] with
    | error fault =>
      rw [SyntaxTree.ofParseTree, hrun] at h
      cases h
    | ok s => exact ⟨s, Lowering.run_eq_ok_iff.mp hrun⟩
  · intro s hwork
    obtain ⟨htable, hhead⟩ := hroot (Lowering.run_eq_ok_iff.mpr hwork)
    obtain ⟨id, hid⟩ := List.length_eq_one_iff.mp (hbalanced hwork)
    refine ⟨htable, ?_⟩
    rw [hhead, hid, List.headD_cons]
  · intro s rule span count steps hwork
    obtain ⟨hcount, heven, -⟩ := hbalanced hwork
    obtain ⟨s', hleave, -⟩ := Lowering.exists_leave_eq_ok hcount heven
    exact ⟨hcount, s', hleave⟩

namespace ParseTree

mutual

/-- Repetitions are told apart from tokens: no token is one, and nothing else is without
children. -/
def TokensApart : ParseTree → Prop
  | leaf rule _ _ => rule.role ≠ .repetition
  | branch rule _ children => (children = [] → rule.role = .repetition) ∧ TokensApartAll children

def TokensApartAll : List ParseTree → Prop
  | [] => True
  | tree :: rest => tree.TokensApart ∧ TokensApartAll rest

end

end ParseTree

namespace Grammar

open ParseTree

theorem Cursor.tokensApart_branch (c stop : Cursor) (r : Rule) {tree : ParseTree}
    {trees : List ParseTree} (h : TokensApartAll (tree :: trees)) :
    (c.branch stop r (tree :: trees)).TokensApart := ⟨nofun, h⟩

theorem Cursor.tokensApart_atom (c stop : Cursor) {tree : ParseTree} {trees : List ParseTree}
    (h : TokensApartAll (tree :: trees)) : (c.atom stop (tree :: trees)).TokensApart :=
  c.tokensApart_branch stop .unary ⟨c.tokensApart_branch stop .primary h, trivial⟩

theorem Derives.tokensApart {p : Part} {c stop : Cursor} {trees : List ParseTree}
    (h : Derives p c trees stop) : TokensApartAll trees := by
  induction h with
  | @number c lexeme rest hnumber =>
    have hliteral : (c.leaf .numberLiteral lexeme rest).TokensApart := nofun
    have hbranch : (c.branch (c.after lexeme rest) .number
        [c.leaf .numberLiteral lexeme rest]).TokensApart :=
      c.tokensApart_branch _ _ ⟨hliteral, trivial⟩
    exact ⟨c.tokensApart_atom _ ⟨hbranch, trivial⟩, trivial⟩
  | @name c lexeme rest hname hbare =>
    have hbase : (c.leaf .identifier lexeme rest).TokensApart := nofun
    exact ⟨c.tokensApart_atom _ ⟨hbase, trivial⟩, trivial⟩
  | @indexed c d e lexeme rest inner outer index hname hd hopen hindex hclose ih =>
    have hbase : (c.leaf .identifier lexeme rest).TokensApart := nofun
    have hopening : (d.leaf .openBracket ['['] inner).TokensApart := nofun
    have hclosing : (e.skipLayout.leaf .closeBracket [']'] outer).TokensApart := nofun
    exact ⟨c.tokensApart_atom _ ⟨hbase, hopening, ih.1, hclosing, trivial⟩, trivial⟩
  | @group c e inner outer tree hopen hinner hclose ih =>
    have hopening : (c.leaf .openParen ['('] inner).TokensApart := nofun
    have hclosing : (e.skipLayout.leaf .closeParen [')'] outer).TokensApart := nofun
    exact ⟨c.tokensApart_atom _ ⟨hopening, ih.1, hclosing, trivial⟩, trivial⟩
  | @signed c stop s rest tree hsymbol hoperand ih =>
    have hsign : (c.leaf (.symbol s) s.text rest).TokensApart := nofun
    have hoperator : (c.branch (c.after s.text rest) .unaryOperator
        [c.leaf (.symbol s) s.text rest]).TokensApart :=
      c.tokensApart_branch _ _ ⟨hsign, trivial⟩
    exact ⟨c.tokensApart_branch stop .unary ⟨hoperator, ih⟩, trivial⟩
  | bare _ ih => exact ih
  | @tier c d stop t tighter tree trees hfirst hrounds ihFirst ihRounds =>
    have hrepetition : (d.skipLayout.branch stop (.repetition t) trees).TokensApart :=
      ⟨fun _ => rfl, ihRounds⟩
    exact ⟨c.tokensApart_branch stop (.tier t) ⟨ihFirst.1, hrepetition, trivial⟩, trivial⟩
  | done c => trivial
  | @round c d e stop t tighter s rest tree trees hd hsymbol hs hoperand hrounds ihOperand
      ihRounds =>
    have hsign : (d.leaf (.symbol s) s.text rest).TokensApart := nofun
    have hoperator : (d.branch (d.after s.text rest) (.tierOperator t)
        [d.leaf (.symbol s) s.text rest]).TokensApart :=
      d.tokensApart_branch _ _ ⟨hsign, trivial⟩
    exact ⟨hoperator, ihOperand.1, ihRounds⟩
  | @expression c stop tree htiers ih =>
    exact ⟨c.tokensApart_branch stop .expression ih, trivial⟩

end Grammar

namespace SyntaxTree

/-- The places of a tree are the positions of its walk from the root, and each but the root is the
child of one entry, once. -/
structure InPostOrder (t : SyntaxTree) : Prop where
  postOrder_eq : t.postOrder.toList = List.range t.size
  size_eq : t.size = t.root + 1
  parent : ∀ id < t.root, ∃ p, (t.children p).count id = 1 ∧ ∀ q, id ∈ t.children q → q = p
  root_no_child : ∀ p, t.root ∉ t.children p

variable {t : SyntaxTree} {tree : ParseTree} {source : String}

theorem IsOf.inPostOrder (h : t.IsOf tree source) : t.InPostOrder := by
  have hsize : t.size = t.root + 1 := by rw [h.size_eq, h.root_eq]
  have hwalk : t.table.unfolding t.root = List.range t.size := by
    rw [h.unfolding_eq, h.size_eq, List.range_eq_range']
  have hnodup : (t.table.unfolding t.root).Nodup := hwalk ▸ List.nodup_range
  have hvisited : ∀ {p id : Place}, id ∈ t.children p → p ∈ t.table.unfolding t.root := by
    intro p id hid
    rw [hwalk, List.mem_range]
    exact EntryTable.lt_size_of_mem_children hid
  have hperm := t.table.unfolding_perm t.root
  refine ⟨by rw [toList_postOrder, hwalk], hsize, fun id hid => ?_, fun p hp => ?_⟩
  · have hmem : id ∈ t.table.unfolding t.root := by
      rw [hwalk, List.mem_range, hsize]
      exact Nat.lt_succ_of_lt hid
    rcases List.mem_append.mp (hperm.mem_iff.mp hmem) with hchild | hroot
    · obtain ⟨p, hp, hchild⟩ := List.mem_flatMap.mp hchild
      have hchildren : (t.children p).Nodup :=
        (List.nodup_flatMap.mp (List.nodup_append.mp (hperm.nodup_iff.mp hnodup)).1).1 p hp
      exact ⟨p, List.count_eq_one_of_mem hchildren hchild, fun q hq =>
        EntryTable.parent_unique hnodup (hvisited hq) hp hq hchild⟩
    · exact absurd (List.mem_singleton.mp hroot) (Nat.ne_of_lt hid)
  · have hlt : t.root < p := EntryTable.lt_of_mem_children hp
    have hbound : p < t.size := EntryTable.lt_size_of_mem_children hp
    rw [hsize] at hbound
    exact Nat.not_lt.mpr (Nat.le_of_lt_succ hbound) hlt

theorem IsOf.unfolded_root (h : t.IsOf tree source) : t.unfolded t.root = tree.unfolded :=
  ParseTree.unfolded_eq tree (h.standsAt h.countsNumbers)

/-- What the grammar matches is read without loss wherever its nesting is allowed: the expression
in the match is lowered step by step, the tree unfolds to it, with the children of a repetition
two by two, and the places of the tree are its post-order. -/
theorem parse_lossless {trees : List ParseTree} (h : Grammar.run .main source.toList = .ok trees) :
    ∃ tree t, expression? trees = some tree ∧ tree.Paired ∧ tree.TokensApart ∧
      (∀ limit nesting, Nesting.deepest limit source.toList = .ok nesting →
        parse source limit = .ok t) ∧
      t.unfolded t.root = tree.unfolded ∧ tree.LowersTo t ∧ t.InPostOrder := by
  obtain ⟨tree, t, hexpression, ht, hof⟩ := exists_ofParseTree_of_run h
  obtain ⟨stop, hderives, -⟩ := hof.derives
  refine ⟨tree, t, hexpression, hof.paired, hderives.tokensApart.1, ?_, hof.unfolded_root,
    ParseTree.lowersTo_of_paired hof.paired ht, hof.inPostOrder⟩
  intro limit nesting hnesting
  simp only [parse, hnesting, h, hexpression, ht]

/-- A sign before an index and a product, among repetitions that are empty. -/
theorem parse_lossless_product :
    ∃ trees tree t, Grammar.run .main "-a[1]*2 ".toList = .ok trees ∧
      expression? trees = some tree ∧ parse "-a[1]*2 " 2 = .ok t ∧
      t.unfolded t.root = tree.unfolded ∧ tree.LowersTo t ∧ t.InPostOrder := by
  have hcheck : (Grammar.run .main "-a[1]*2 ".toList).toOption.isSome = true := by decide +kernel
  have hnesting : Nesting.deepest 2 "-a[1]*2 ".toList = .ok 1 := by decide
  cases h : Grammar.run .main "-a[1]*2 ".toList with
  | error mismatch =>
    rw [h] at hcheck
    cases hcheck
  | ok trees =>
    obtain ⟨tree, t, hexpression, -, -, hparse, hrest⟩ := parse_lossless h
    exact ⟨trees, tree, t, rfl, hexpression, hparse 2 1 hnesting, hrest⟩

end SyntaxTree

end Reckon
