import Mathlib.Logic.Relation
import Reckon.Proofs.Syntax.Lossless

/-!
The links of a tree against its children. The link of a place leads to the last
place of the walk that has it among its children, and there is none just when
nothing that the root leads down to has. In a tree that was read the links are
the children the other way round, and a token is linked to a number just when it
is the literal of one.
-/

namespace Reckon

namespace EntryTable

variable {t : EntryTable} {root id : Place}

/-- A place leads down to another, from children to children. -/
def LeadsTo (t : EntryTable) : Place → Place → Prop :=
  Relation.ReflTransGen fun id child => child ∈ t.children id

theorem mem_unfolding_iff : id ∈ t.unfolding root ↔ t.LeadsTo root id := by
  constructor
  · intro h
    induction root using Nat.strongRecOn with
    | _ root ih =>
      rw [unfolding_eq] at h
      rcases List.mem_append.mp h with hbelow | hroot
      · obtain ⟨child, hchild, hid⟩ := List.mem_flatMap.mp hbelow
        exact .head hchild (ih child (lt_of_mem_children hchild) hid)
      · obtain rfl := List.mem_singleton.mp hroot
        exact .refl
  · intro h
    induction h with
    | refl => exact t.mem_unfolding_self root
    | tail _ hchild ih => exact mem_unfolding_of_mem_children ih hchild

end EntryTable

/-- A place is the last of the walk from the root that has another among its children. -/
def SyntaxTree.IsLastParent (t : SyntaxTree) (id p : Place) : Prop :=
  ∃ before behind, t.postOrder.toList = before ++ p :: behind ∧ id ∈ t.children p ∧
    ∀ q ∈ behind, id ∉ t.children q

namespace Parents

variable {t : SyntaxTree} {id p : Place}

theorem size_foldl (ids : List Place) (links : Parents) :
    (ids.foldl (linkChildren t) links).parents.size = links.parents.size := by
  induction ids generalizing links with
  | nil => rfl
  | cons id ids ih => rw [List.foldl_cons, ih, size_linkChildren]

theorem size_ofTree (t : SyntaxTree) : (ofTree t).parents.size = t.size := by
  rw [ofTree, SyntaxTree.foldPostOrder_eq_foldl, size_foldl, Array.size_replicate]

/-- Outside the table there are neither links nor children. -/
theorem parent?_eq_getLast? (t : SyntaxTree) (id : Place) :
    (ofTree t).parent? id =
      ((t.table.unfolding t.root).filter fun p => id ∈ t.children p).getLast? := by
  by_cases hid : id < t.size
  · exact parent?_ofTree t hid
  · have hnone : (t.table.unfolding t.root).filter (fun p => id ∈ t.children p) = [] := by
      apply List.filter_eq_nil_iff.mpr
      intro p _ hchild
      apply hid
      have hchild : id ∈ t.table.children p := of_decide_eq_true hchild
      exact Nat.lt_trans (EntryTable.lt_of_mem_children hchild)
        (EntryTable.lt_size_of_mem_children hchild)
    have hsize : (ofTree t).parents.size ≤ id := by
      rw [size_ofTree]
      exact Nat.le_of_not_lt hid
    rw [hnone, parent?, Array.getD_eq_getD_getElem?, Array.getElem?_eq_none hsize]
    rfl

theorem parent?_eq_some_iff : (ofTree t).parent? id = some p ↔ t.IsLastParent id p := by
  rw [parent?_eq_getLast?, List.getLast?_filter, List.find?_eq_some_iff_append,
    SyntaxTree.IsLastParent, SyntaxTree.toList_postOrder]
  constructor
  · rintro ⟨hp, behind, before, hwalk, hbehind⟩
    refine ⟨before.reverse, behind.reverse, ?_, of_decide_eq_true hp, ?_⟩
    · have hreversed := congrArg List.reverse hwalk
      simpa using hreversed
    · intro q hq
      have hnot := hbehind q (List.mem_reverse.mp hq)
      simpa using hnot
  · rintro ⟨before, behind, hwalk, hp, hbehind⟩
    refine ⟨decide_eq_true hp, behind.reverse, before.reverse, ?_, ?_⟩
    · rw [hwalk]
      simp
    · intro q hq
      have hnot := hbehind q (List.mem_reverse.mp hq)
      simpa using hnot

theorem parent?_eq_none_iff :
    (ofTree t).parent? id = none ↔ ∀ p, t.table.LeadsTo t.root p → id ∉ t.children p := by
  rw [parent?_eq_getLast?, List.getLast?_eq_none_iff, List.filter_eq_nil_iff]
  simp only [EntryTable.mem_unfolding_iff, decide_eq_true_eq]

end Parents

namespace ParseTree

mutual

/-- Tokens below numbers are their literals, and no other token is one. The flag says whether the
tree itself stands below a number. -/
def LiteralsApart (counts : Bool) : ParseTree → Prop
  | leaf rule _ _ => counts = true ↔ rule = .numberLiteral
  | branch rule _ children => LiteralsApartAll (rule = .number) children

def LiteralsApartAll (counts : Bool) : List ParseTree → Prop
  | [] => True
  | tree :: rest => tree.LiteralsApart counts ∧ LiteralsApartAll counts rest

end

mutual

/-- Where a tree stands, the tokens that count as numbers are the literals. -/
theorem isNumber_iff_of_standsAt {t : SyntaxTree} {isNumber : Place → Bool} {counts : Bool}
    (tree : ParseTree) {id place : Place} {e : Entry} (hstands : StandsAt t isNumber counts tree id)
    (hapart : tree.LiteralsApart counts) (hplace : place ∈ t.table.unfolding id)
    (he : t.get? place = some e) (htoken : e.text?.isSome) :
    isNumber place = true ↔ e.rule = .numberLiteral := by
  cases tree with
  | leaf rule span text =>
    obtain ⟨hid, hcounts⟩ := hstands
    have hchildren : t.table.children id = [] := Evaluation.children_of_get? hid
    rw [EntryTable.unfolding_eq, hchildren] at hplace
    obtain rfl := List.mem_singleton.mp hplace
    rw [hid] at he
    obtain rfl := Option.some.inj he
    rw [hcounts]
    exact hapart
  | branch rule span children =>
    obtain ⟨ids, hid, heven, hall⟩ := hstands
    have hchildren : t.table.children id = ids :=
      (Evaluation.children_of_get? hid).trans (children_shape heven)
    rw [EntryTable.unfolding_eq, hchildren] at hplace
    rcases List.mem_append.mp hplace with hbelow | hself
    · exact isNumber_iff_of_standAt children hall hapart hbelow he htoken
    · obtain rfl := List.mem_singleton.mp hself
      rw [hid] at he
      obtain rfl := Option.some.inj he
      simp only [Entry.text?, shape] at htoken
      split_ifs at htoken <;> cases htoken

theorem isNumber_iff_of_standAt {t : SyntaxTree} {isNumber : Place → Bool} {counts : Bool}
    (trees : List ParseTree) {ids : List Place} {place : Place} {e : Entry}
    (hstand : StandAt t isNumber counts trees ids) (hapart : LiteralsApartAll counts trees)
    (hplace : place ∈ ids.flatMap t.table.unfolding) (he : t.get? place = some e)
    (htoken : e.text?.isSome) : isNumber place = true ↔ e.rule = .numberLiteral := by
  cases trees with
  | nil =>
    obtain rfl := hstand
    cases hplace
  | cons tree rest =>
    obtain ⟨id, more, rfl, htree, hrest⟩ := hstand
    rw [List.flatMap_cons] at hplace
    rcases List.mem_append.mp hplace with hfirst | hmore
    · exact isNumber_iff_of_standsAt tree htree hapart.1 hfirst he htoken
    · exact isNumber_iff_of_standAt rest hrest hapart.2 hmore he htoken

end

end ParseTree

namespace Grammar

open ParseTree

variable {counts : Bool}

theorem Cursor.literalsApart_leaf (c : Cursor) {r : Rule} (lexeme rest : List Char)
    (hr : r ≠ .numberLiteral) : (c.leaf r lexeme rest).LiteralsApart false := by
  simpa [Cursor.leaf, LiteralsApart] using hr

theorem Cursor.literalsApart_branch (c stop : Cursor) {r : Rule} {children : List ParseTree}
    (hr : r ≠ .number) (h : LiteralsApartAll false children) :
    (c.branch stop r children).LiteralsApart counts := by
  rw [Cursor.branch, LiteralsApart, decide_eq_false hr]
  exact h

theorem Cursor.literalsApart_atom (c stop : Cursor) {children : List ParseTree}
    (h : LiteralsApartAll false children) : (c.atom stop children).LiteralsApart counts := by
  have hprimary : (c.branch stop .primary children).LiteralsApart false :=
    c.literalsApart_branch stop (by simp) h
  exact c.literalsApart_branch stop (by simp) ⟨hprimary, trivial⟩

/-- An operator above its symbol. -/
theorem Cursor.literalsApart_operator (c : Cursor) (r : Rule) (hr : r ≠ .number) (s : Symbol)
    (rest : List Char) :
    (c.branch (c.after s.text rest) r [c.leaf (.symbol s) s.text rest]).LiteralsApart counts :=
  c.literalsApart_branch _ hr ⟨c.literalsApart_leaf s.text rest (by simp), trivial⟩

theorem Derives.literalsApart {p : Part} {c stop : Cursor} {trees : List ParseTree}
    (h : Derives p c trees stop) : LiteralsApartAll counts trees := by
  induction h generalizing counts with
  | @number c lexeme rest hnumber =>
    have hliteral : (c.branch (c.after lexeme rest) .number
        [c.leaf .numberLiteral lexeme rest]).LiteralsApart false := by
      simp [Cursor.branch, Cursor.leaf, LiteralsApart, LiteralsApartAll]
    exact ⟨c.literalsApart_atom _ ⟨hliteral, trivial⟩, trivial⟩
  | @name c lexeme rest hname hbare =>
    have hbase : (c.leaf .identifier lexeme rest).LiteralsApart false :=
      c.literalsApart_leaf lexeme rest (by simp)
    exact ⟨c.literalsApart_atom _ ⟨hbase, trivial⟩, trivial⟩
  | @indexed c d e lexeme rest inner outer index hname hd hopen hindex hclose ih =>
    have hbase : (c.leaf .identifier lexeme rest).LiteralsApart false :=
      c.literalsApart_leaf lexeme rest (by simp)
    have hopening : (d.leaf .openBracket ['['] inner).LiteralsApart false :=
      d.literalsApart_leaf ['['] inner (by simp)
    have hclosing : (e.skipLayout.leaf .closeBracket [']'] outer).LiteralsApart false :=
      e.skipLayout.literalsApart_leaf [']'] outer (by simp)
    exact ⟨c.literalsApart_atom _ ⟨hbase, hopening, ih.1, hclosing, trivial⟩, trivial⟩
  | @group c e inner outer tree hopen hinner hclose ih =>
    have hopening : (c.leaf .openParen ['('] inner).LiteralsApart false :=
      c.literalsApart_leaf ['('] inner (by simp)
    have hclosing : (e.skipLayout.leaf .closeParen [')'] outer).LiteralsApart false :=
      e.skipLayout.literalsApart_leaf [')'] outer (by simp)
    exact ⟨c.literalsApart_atom _ ⟨hopening, ih.1, hclosing, trivial⟩, trivial⟩
  | @signed c stop s rest tree hsymbol hoperand ih =>
    have hoperator : (c.branch (c.after s.text rest) .unaryOperator
        [c.leaf (.symbol s) s.text rest]).LiteralsApart false :=
      c.literalsApart_operator .unaryOperator (by simp) s rest
    exact ⟨c.literalsApart_branch stop (by simp) ⟨hoperator, ih⟩, trivial⟩
  | bare _ ih => exact ih
  | @tier c d stop t tighter tree trees hfirst hrounds ihFirst ihRounds =>
    have hrepetition : (d.skipLayout.branch stop (.repetition t) trees).LiteralsApart false :=
      d.skipLayout.literalsApart_branch stop (by simp) ihRounds
    exact ⟨c.literalsApart_branch stop (by simp) ⟨ihFirst.1, hrepetition, trivial⟩, trivial⟩
  | done c => trivial
  | @round c d e stop t tighter s rest tree trees hd hsymbol hs hoperand hrounds ihOperand
      ihRounds =>
    have hoperator : (d.branch (d.after s.text rest) (.tierOperator t)
        [d.leaf (.symbol s) s.text rest]).LiteralsApart counts :=
      d.literalsApart_operator (.tierOperator t) (by simp) s rest
    exact ⟨hoperator, ihOperand.1, ihRounds⟩
  | @expression c stop tree htiers ih =>
    exact ⟨c.literalsApart_branch stop (by simp) ih, trivial⟩

end Grammar

namespace SyntaxTree.IsOf

variable {t : SyntaxTree} {tree : ParseTree} {source : String} {id : Place}

theorem parent?_eq_some_iff (h : t.IsOf tree source) {p : Place} :
    (Parents.ofTree t).parent? id = some p ↔ id ∈ t.children p := by
  constructor
  · intro hp
    obtain ⟨-, -, -, hchild, -⟩ := Parents.parent?_eq_some_iff.mp hp
    exact hchild
  · exact h.parent?_eq_some

theorem parent?_eq_none_iff (h : t.IsOf tree source) (hid : id < t.size) :
    (Parents.ofTree t).parent? id = none ↔ id = t.root := by
  constructor
  · intro hnone
    by_contra hne
    have hlt : id < t.root := by
      rw [h.inPostOrder.size_eq] at hid
      exact Nat.lt_of_le_of_ne (Nat.le_of_lt_succ hid) hne
    obtain ⟨p, hcount, -⟩ := h.inPostOrder.parent id hlt
    have hchild : id ∈ t.children p := List.count_pos_iff.mp (by omega)
    rw [h.parent?_eq_some hchild] at hnone
    cases hnone
  · rintro rfl
    cases hparent : (Parents.ofTree t).parent? t.root with
    | none => rfl
    | some p => exact absurd (h.parent?_eq_some_iff.mp hparent) (h.inPostOrder.root_no_child p)

theorem parentRule?_eq_number_iff (h : t.IsOf tree source) {e : Entry} (he : t.get? id = some e)
    (htoken : e.text?.isSome) :
    (Parents.ofTree t).parentRule? t id = some .number ↔ e.rule = .numberLiteral := by
  obtain ⟨stop, hderives, -⟩ := h.derives
  have hid : id ∈ t.table.unfolding t.root := by
    have hsize : id < t.size := (Array.getElem?_eq_some_iff.mp he).1
    rw [← toList_postOrder, h.inPostOrder.postOrder_eq]
    exact List.mem_range.mpr hsize
  have hnumber := tree.isNumber_iff_of_standsAt (h.standsAt h.countsNumbers)
    hderives.literalsApart.1 hid he htoken
  simpa only [decide_eq_true_eq] using hnumber

end SyntaxTree.IsOf

namespace Parents

/-- Links lead to the last parent on the walk, in any tree. In a tree that was read they invert
the children, the root alone has none, and they tell the literals of numbers from all other
tokens. -/
theorem links_invert_children :
    (∀ (t : SyntaxTree) (id : Place),
      (∀ p, (ofTree t).parent? id = some p ↔ t.IsLastParent id p) ∧
      ((ofTree t).parent? id = none ↔ ∀ p, t.table.LeadsTo t.root p → id ∉ t.children p)) ∧
    ∀ (source : String) (limit : Nat) (t : SyntaxTree), SyntaxTree.parse source limit = .ok t →
      (∀ id p, (ofTree t).parent? id = some p ↔ id ∈ t.children p) ∧
      (t.root < t.size ∧ ∀ id < t.size, (ofTree t).parent? id = none ↔ id = t.root) ∧
      ∀ id e, t.get? id = some e → e.text?.isSome →
        ((ofTree t).parentRule? t id = some .number ↔ e.rule = .numberLiteral) := by
  constructor
  · intro t id
    exact ⟨fun p => parent?_eq_some_iff, parent?_eq_none_iff⟩
  · intro source limit t hparse
    obtain ⟨tree, hof⟩ := SyntaxTree.isOf_of_parse hparse
    have hroot : t.root < t.size := by
      rw [hof.inPostOrder.size_eq]
      exact Nat.lt_succ_self _
    refine ⟨fun id p => hof.parent?_eq_some_iff, ⟨hroot, fun id => hof.parent?_eq_none_iff⟩, ?_⟩
    intro id e he htoken
    exact hof.parentRule?_eq_number_iff he htoken

/-- The literals of an index and of an operand count as numbers, the name between them does not. -/
theorem links_of_indexed :
    ∃ t, SyntaxTree.parse "-(x[1]+2.5)" 8 = .ok t ∧
      (t.root < t.size ∧ ∀ id < t.size, (ofTree t).parent? id = none ↔ id = t.root) ∧
      ∀ id e, t.get? id = some e → e.text?.isSome →
        ((ofTree t).parentRule? t id = some .number ↔ e.rule = .numberLiteral) := by
  have hcheck : (SyntaxTree.parse "-(x[1]+2.5)" 8).toOption.isSome = true := by decide +kernel
  cases h : SyntaxTree.parse "-(x[1]+2.5)" 8 with
  | error error =>
    rw [h] at hcheck
    cases hcheck
  | ok t => exact ⟨t, rfl, (links_invert_children.2 _ _ t h).2⟩

end Parents

end Reckon
