import Reckon.Proofs.Syntax.Acceptance
import Reckon.Proofs.Syntax.Parents

/-!
Trees in a table. A tree stands at a place when the entry there is its own and
its children stand at the places that the entry refers to. In a table that was
filled by the lowering the walk from the root visits each place once, in
increasing order, and a token stands for a number when its parent is one.
-/

namespace Reckon

namespace EntryTable

/-- These entries stand in a row in a table. -/
def Holds (t : EntryTable) (base : Nat) (entries : List Entry) : Prop :=
  ∀ i, i < entries.length → t.get? (base + i) = entries[i]?

variable {t : EntryTable} {base : Nat}

theorem holds_append {first second : List Entry} :
    t.Holds base (first ++ second) ↔ t.Holds base first ∧ t.Holds (base + first.length) second := by
  constructor
  · intro h
    constructor
    · intro i hi
      have hentry := h i (by rw [List.length_append]; omega)
      rwa [List.getElem?_append_left hi] at hentry
    · intro i hi
      have hentry := h (first.length + i) (by rw [List.length_append]; omega)
      rwa [List.getElem?_append_right (Nat.le_add_right _ _), Nat.add_sub_cancel_left,
        ← Nat.add_assoc] at hentry
  · rintro ⟨hfirst, hsecond⟩ i hi
    by_cases hlt : i < first.length
    · rw [List.getElem?_append_left hlt]
      exact hfirst i hlt
    · rw [List.length_append] at hi
      have hentry := hsecond (i - first.length) (by omega)
      have hplace : base + first.length + (i - first.length) = base + i := by omega
      rwa [List.getElem?_append_right (Nat.le_of_not_lt hlt), ← hplace]

theorem holds_singleton {e : Entry} : t.Holds base [e] ↔ t.get? base = some e := by
  constructor
  · intro h
    exact h 0 (by simp)
  · intro h i hi
    obtain rfl : i = 0 := by simpa using hi
    exact h

theorem holds_toList (t : EntryTable) : t.Holds 0 t.entries.toList := by
  intro i _
  simp [get?]

end EntryTable

namespace ParseTree

open EntryTable

mutual

/-- The walk below the root of a laid-out tree visits its places from the first to the last. -/
theorem unfolding_eq_range' {t : EntryTable} (tree : ParseTree) {base : Nat}
    (hpaired : tree.Paired) (h : t.Holds base (tree.entries base)) :
    t.unfolding (base + tree.descendants) = List.range' base (tree.descendants + 1) := by
  cases tree with
  | leaf rule span text =>
    rw [entries, holds_singleton] at h
    have hchildren : t.children base = [] := by
      simp only [EntryTable.children, h]
      rfl
    rw [descendants, Nat.add_zero, unfolding_eq, hchildren]
    rfl
  | branch rule span children =>
    obtain ⟨hrule, hall⟩ := hpaired
    rw [entries, holds_append, length_entriesOf, holds_singleton] at h
    obtain ⟨hbelow, hentry⟩ := h
    have hchildren : t.children (base + countOf children) = placesOf base children := by
      simp only [EntryTable.children, hentry]
      exact children_shape (by rwa [length_placesOf])
    rw [descendants, unfolding_eq, hchildren, flatMap_unfolding_eq_range' children hall hbelow,
      List.range'_concat, Nat.one_mul]

theorem flatMap_unfolding_eq_range' {t : EntryTable} (trees : List ParseTree) {base : Nat}
    (hpaired : PairedAll trees) (h : t.Holds base (entriesOf base trees)) :
    (placesOf base trees).flatMap t.unfolding = List.range' base (countOf trees) := by
  cases trees with
  | nil => rfl
  | cons tree rest =>
    obtain ⟨htree, hrest⟩ := hpaired
    rw [entriesOf, holds_append, length_entries, ← Nat.add_assoc] at h
    rw [placesOf, List.flatMap_cons, unfolding_eq_range' tree htree h.1,
      flatMap_unfolding_eq_range' rest hrest h.2, countOf, Nat.add_assoc base,
      List.range'_append_1]

end

mutual

/-- A tree stands at a place of a table in which some tokens count as numbers; `counts` says
whether it does itself, if it is a token. -/
def StandsAt (t : SyntaxTree) (isNumber : Place → Bool) (counts : Bool) : ParseTree → Place → Prop
  | leaf rule span text, id => t.get? id = some ⟨rule, span, .token text⟩ ∧ isNumber id = counts
  | branch rule span children, id =>
    ∃ ids, t.get? id = some ⟨rule, span, shape rule ids⟩ ∧
      (rule.role = .repetition → ids.length % 2 = 0) ∧
      StandAt t isNumber (rule = .number) children ids

/-- Some trees stand each at one of some places. -/
def StandAt (t : SyntaxTree) (isNumber : Place → Bool) (counts : Bool) :
    List ParseTree → List Place → Prop
  | [], ids => ids = []
  | tree :: rest, ids =>
    ∃ id more, ids = id :: more ∧ StandsAt t isNumber counts tree id ∧
      StandAt t isNumber counts rest more

end

/-- The tokens that count as numbers are the children of numbers. -/
def CountsNumbers (t : SyntaxTree) (isNumber : Place → Bool) : Prop :=
  ∀ ⦃id place : Place⦄ ⦃e : Entry⦄, t.get? id = some e → place ∈ t.children id →
    isNumber place = decide (e.rule = .number)

mutual

/-- A laid-out tree stands at the place of its own entry. -/
theorem standsAt_of_holds {t : SyntaxTree} {isNumber : Place → Bool}
    (hnumber : CountsNumbers t isNumber) (tree : ParseTree) {base : Nat} (hpaired : tree.Paired)
    (h : t.table.Holds base (tree.entries base)) {counts : Bool}
    (hcounts : isNumber (base + tree.descendants) = counts) :
    StandsAt t isNumber counts tree (base + tree.descendants) := by
  cases tree with
  | leaf rule span text =>
    rw [entries, holds_singleton] at h
    exact ⟨h, hcounts⟩
  | branch rule span children =>
    obtain ⟨hrule, hall⟩ := hpaired
    rw [entries, holds_append, length_entriesOf, holds_singleton] at h
    obtain ⟨hbelow, hentry⟩ := h
    rw [← length_placesOf base] at hrule
    have hchildren : t.children (base + countOf children) = placesOf base children := by
      simp only [SyntaxTree.children, EntryTable.children, hentry]
      exact children_shape hrule
    refine ⟨placesOf base children, hentry, hrule, standAt_of_holds hnumber children hall hbelow ?_⟩
    intro id hid
    exact hnumber hentry (hchildren ▸ hid)

theorem standAt_of_holds {t : SyntaxTree} {isNumber : Place → Bool}
    (hnumber : CountsNumbers t isNumber) (trees : List ParseTree) {base : Nat}
    (hpaired : PairedAll trees)
    (h : t.table.Holds base (entriesOf base trees)) {counts : Bool}
    (hcounts : ∀ id ∈ placesOf base trees, isNumber id = counts) :
    StandAt t isNumber counts trees (placesOf base trees) := by
  cases trees with
  | nil => rfl
  | cons tree rest =>
    obtain ⟨htree, hrest⟩ := hpaired
    rw [entriesOf, holds_append, length_entries, ← Nat.add_assoc] at h
    exact ⟨_, _, rfl, standsAt_of_holds hnumber tree htree h.1 (hcounts _ List.mem_cons_self),
      standAt_of_holds hnumber rest hrest h.2 fun id hid => hcounts id (List.mem_cons_of_mem _ hid)⟩

end

end ParseTree

section shapes

open Grammar ParseTree

variable {t : SyntaxTree} {isNumber : Place → Bool} {counts : Bool} {ids : List Place}

theorem exists_of_standAt_atom {c stop : Cursor} {children : List ParseTree}
    (h : StandAt t isNumber counts [c.atom stop children] ids) :
    ∃ id span p span' cs, ids = [id] ∧ t.get? id = some ⟨.unary, span, .node [p]⟩ ∧
      t.get? p = some ⟨.primary, span', .node cs⟩ ∧ StandAt t isNumber false children cs := by
  obtain ⟨id, _, rfl, ⟨ids, hid, -, p, _, rfl, ⟨cs, hp, -, hcs⟩, rfl⟩, rfl⟩ := h
  exact ⟨id, _, p, _, cs, rfl, hid, hp, hcs⟩

theorem exists_of_standAt_operator {c stop c' : Cursor} {r r' : Rule} {lexeme rest : List Char}
    {id : Place} (hr : r.role = .operator)
    (h : StandsAt t isNumber counts (c.branch stop r [c'.leaf r' lexeme rest]) id) :
    ∃ span token span', t.get? id = some ⟨r, span, .node [token]⟩ ∧
      t.get? token = some ⟨r', span', .token (String.ofList lexeme)⟩ ∧
      isNumber token = false := by
  obtain ⟨ids, hid, -, token, _, rfl, ⟨htoken, hword⟩, rfl⟩ := h
  have hshape : shape r [token] = .node [token] := by
    rw [shape, if_neg (by simp [hr])]
  have hnumber : r ≠ .number := by
    rintro rfl
    cases hr
  rw [hshape] at hid
  exact ⟨_, token, _, hid, htoken, by rwa [decide_eq_false hnumber] at hword⟩

end shapes

namespace SyntaxTree.IsOf

variable {t : SyntaxTree} {tree : ParseTree} {source : String}

theorem paired (h : t.IsOf tree source) : tree.Paired := by
  obtain ⟨stop, hderives, -⟩ := h.derives
  exact hderives.paired.1.1

theorem holds (h : t.IsOf tree source) : t.table.Holds 0 (tree.entries 0) :=
  h.entries_eq ▸ t.table.holds_toList

/-- A tree that was read is visited in the order of its places. -/
theorem unfolding_eq (h : t.IsOf tree source) :
    t.table.unfolding t.root = List.range' 0 (tree.descendants + 1) := by
  have hwalk := tree.unfolding_eq_range' h.paired h.holds
  rw [Nat.zero_add] at hwalk
  rw [h.root_eq, hwalk]

theorem size_eq (h : t.IsOf tree source) : t.size = tree.descendants + 1 := by
  have hlength := congrArg List.length h.entries_eq
  rwa [Array.length_toList, ParseTree.length_entries] at hlength

/-- In a tree that was read the links invert the children. -/
theorem parent?_eq_some (h : t.IsOf tree source) {id place : Place}
    (hplace : place ∈ t.children id) : (Parents.ofTree t).parent? place = some id := by
  have hsize : id < t.size := EntryTable.lt_size_of_mem_children hplace
  rw [h.size_eq] at hsize
  apply Parents.parent?_eq_some _ _ hplace
  · rw [h.unfolding_eq]
    exact List.nodup_range'
  · rw [h.unfolding_eq]
    exact List.mem_range'_1.mpr ⟨Nat.zero_le _, by rwa [Nat.zero_add]⟩

theorem countsNumbers (h : t.IsOf tree source) :
    ParseTree.CountsNumbers t fun id =>
      decide ((Parents.ofTree t).parentRule? t id = some .number) := by
  intro id place e he hplace
  simp [Parents.parentRule?, h.parent?_eq_some hplace, he]

/-- A tree that was read stands at its root. -/
theorem standsAt (h : t.IsOf tree source) {isNumber : Place → Bool}
    (hnumber : ParseTree.CountsNumbers t isNumber) :
    tree.StandsAt t isNumber (isNumber t.root) t.root := by
  have hroot : 0 + tree.descendants = t.root := by rw [Nat.zero_add, h.root_eq]
  have hstands := ParseTree.standsAt_of_holds hnumber tree h.paired h.holds rfl
  rwa [hroot] at hstands

end SyntaxTree.IsOf

end Reckon
