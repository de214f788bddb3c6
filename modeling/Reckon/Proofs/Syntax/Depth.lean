import Reckon.Proofs.Evaluation.Entries

/-!
The levels around the tokens of a tree. Parentheses, the brackets of an index
and a sign each put one level around what they hold. Beside them stands what
the scan of the text counts: it takes the signs before a parenthesis along, but
the name of an index makes it drop the signs before the name, although these
still stand around all that is in the brackets.
-/

namespace Reckon

/-- How deep a place of a tree lies: the levels around it; the levels that the scan of the text
holds there for open brackets, and for signs before an operand to come; and the levels of signs
that it dropped at names on the way. -/
structure Levels where
  around : Nat
  enclosing : Nat
  pending : Nat
  dropped : Nat

namespace Levels

def outside : Levels := ⟨0, 0, 0, 0⟩

/-- The levels that the scan counts. -/
def counted (l : Levels) : Nat := l.enclosing + l.pending

def grouped (l : Levels) : Levels := ⟨l.around + 1, l.enclosing + (l.pending + 1), 0, l.dropped⟩

def indexed (l : Levels) : Levels := ⟨l.around + 1, l.enclosing + 1, 0, l.dropped + l.pending⟩

/-- At a sign and the operand behind it. The scan counts the other characters of the sign, too. -/
def signed (l : Levels) (others : Nat) : Levels :=
  ⟨l.around + 1, l.enclosing, l.pending + (others + 1), l.dropped⟩

end Levels

namespace SyntaxTree

/-- The number of characters of an operator behind its first. -/
def otherCharacters (t : SyntaxTree) (operator : Place) : Nat :=
  match Evaluation.symbolOf t operator with
  | .ok symbol => symbol.length - 1
  | .error _ => 0

/-- The children of an entry with the levels around them. The name of an index stands outside of
its brackets. -/
def levelsBelow (t : SyntaxTree) (l : Levels) (e : Entry) : List (Place × Levels) :=
  match e.rule, e.shape with
  | .primary, .node [opening, inner, closing] =>
    [(opening, l.grouped), (inner, l.grouped), (closing, l.grouped)]
  | .primary, .node [base, opening, index, closing] =>
    [(base, l), (opening, l.indexed), (index, l.indexed), (closing, l.indexed)]
  | .unary, .node [operator, operand] =>
    [(operator, l.signed (t.otherCharacters operator)),
      (operand, l.signed (t.otherCharacters operator))]
  | _, shape => shape.children.map fun child => (child, l)

/-- A place with these levels around it lies below another or is the same. -/
inductive Under (t : SyntaxTree) : Levels → Place → Levels → Place → Prop
  | here (l : Levels) (id : Place) : Under t l id l id
  | deeper {l l' l'' : Levels} {id child place : Place} {e : Entry} (he : t.get? id = some e)
      (hchild : (child, l') ∈ t.levelsBelow l e) (hunder : Under t l' child l'' place) :
      Under t l id l'' place

/-- A token stands at a place. -/
def IsToken (t : SyntaxTree) (id : Place) : Prop :=
  ∃ rule span text, t.get? id = some ⟨rule, span, .token text⟩

/-- A token of a tree has these levels around it. -/
def TokenAt (t : SyntaxTree) (l : Levels) (id : Place) : Prop :=
  t.Under .outside t.root l id ∧ t.IsToken id

/-- The levels that the scan counts around the tokens at and below a place are within a limit. -/
def CountedWithin (t : SyntaxTree) (limit : Nat) (l : Levels) (id : Place) : Prop :=
  ∀ l' place, t.Under l id l' place → t.IsToken place → l'.counted ≤ limit

/-- The tokens at and below a place with the levels around them, as far down as the fuel lasts. -/
def tokensBelow (t : SyntaxTree) : Nat → Levels → Place → List (Levels × Place)
  | 0, _, _ => []
  | fuel + 1, l, id =>
    match t.get? id with
    | none => []
    | some e =>
      match e.shape with
      | .token _ => [(l, id)]
      | _ => (t.levelsBelow l e).flatMap fun below => tokensBelow t fuel below.2 below.1

variable {t : SyntaxTree} {limit : Nat} {l l' : Levels} {id place : Place}

theorem under_of_mem_tokensBelow {fuel : Nat} (h : (l', place) ∈ t.tokensBelow fuel l id) :
    t.Under l id l' place ∧ t.IsToken place := by
  induction fuel generalizing l id with
  | zero => cases h
  | succ fuel ih =>
    rw [tokensBelow] at h
    split at h
    · cases h
    · next e he =>
      split at h
      · next text hshape =>
        obtain ⟨rfl, rfl⟩ := Prod.mk.inj (List.mem_singleton.mp h)
        exact ⟨.here _ _, e.rule, e.span, text, by rw [he, ← hshape]⟩
      · obtain ⟨below, hbelow, h⟩ := List.mem_flatMap.mp h
        obtain ⟨hunder, htoken⟩ := ih h
        exact ⟨.deeper he hbelow hunder, htoken⟩

/-- Levels are put around the children of an entry. -/
theorem map_levelsBelow (t : SyntaxTree) (l : Levels) (e : Entry) :
    (t.levelsBelow l e).map Prod.fst = e.children := by
  obtain ⟨rule, span, shape⟩ := e
  unfold levelsBelow
  split
  · next hshape =>
    obtain rfl := hshape
    rfl
  · next hshape =>
    obtain rfl := hshape
    rfl
  · next hshape =>
    obtain rfl := hshape
    rfl
  · rw [List.map_map]
    exact List.map_id _

theorem mem_children_of_mem_levelsBelow {e : Entry} {child : Place}
    (h : (child, l') ∈ t.levelsBelow l e) : child ∈ e.children := by
  rw [← map_levelsBelow t l e]
  exact List.mem_map_of_mem h

/-- The levels around a child are those around its parent, or one more for brackets or a sign. -/
theorem cases_of_mem_levelsBelow {e : Entry} {child : Place} (h : (child, l') ∈ t.levelsBelow l e) :
    l' = l ∨ l' = l.grouped ∨ l' = l.indexed ∨ ∃ operator operand, e.rule = .unary ∧
      e.shape = .node [operator, operand] ∧ l' = l.signed (t.otherCharacters operator) := by
  unfold levelsBelow at h
  split at h
  · simp only [List.mem_cons, Prod.mk.injEq, List.not_mem_nil, or_false] at h
    obtain ⟨-, rfl⟩ | ⟨-, rfl⟩ | ⟨-, rfl⟩ := h <;> exact .inr (.inl rfl)
  · simp only [List.mem_cons, Prod.mk.injEq, List.not_mem_nil, or_false] at h
    obtain ⟨-, rfl⟩ | ⟨-, rfl⟩ | ⟨-, rfl⟩ | ⟨-, rfl⟩ := h
    · exact .inl rfl
    all_goals exact .inr (.inr (.inl rfl))
  · next operator operand hrule hshape =>
    simp only [List.mem_cons, Prod.mk.injEq, List.not_mem_nil, or_false] at h
    obtain ⟨-, rfl⟩ | ⟨-, rfl⟩ := h <;>
      exact .inr (.inr (.inr ⟨operator, operand, hrule, hshape, rfl⟩))
  · obtain ⟨place, -, hplace⟩ := List.mem_map.mp h
    cases hplace
    exact .inl rfl

/-- The fuel lasts when it exceeds the place, since children have smaller places. -/
theorem mem_tokensBelow (h : t.Under l id l' place) (htoken : t.IsToken place) {fuel : Nat}
    (hfuel : id < fuel) : (l', place) ∈ t.tokensBelow fuel l id := by
  induction h generalizing fuel with
  | here l id =>
    obtain ⟨rule, span, text, he⟩ := htoken
    obtain ⟨fuel, rfl⟩ := Nat.exists_eq_add_of_lt hfuel
    rw [tokensBelow, he]
    exact List.mem_singleton_self _
  | @deeper l l' l'' id child place e he hchild hunder ih =>
    obtain ⟨fuel, rfl⟩ := Nat.exists_eq_add_of_lt hfuel
    have hmem := mem_children_of_mem_levelsBelow hchild
    have hlt : child < id := by
      rw [← Evaluation.children_of_get? he] at hmem
      exact EntryTable.lt_of_mem_children hmem
    rw [tokensBelow, he]
    obtain ⟨rule, span, shape⟩ := e
    cases shape with
    | token text => cases hmem
    | node _ | repetition _ =>
      have hbelow := ih htoken (Nat.lt_add_right fuel hlt)
      exact List.mem_flatMap.mpr ⟨_, hchild, hbelow⟩

/-- The scan counts every level but the ones that it dropped. -/
theorem Under.around_le (h : t.Under l id l' place) (hl : l.around ≤ l.counted + l.dropped) :
    l'.around ≤ l'.counted + l'.dropped := by
  induction h with
  | here => exact hl
  | @deeper l l' _ id child _ e he hchild _ ih =>
    apply ih
    unfold Levels.counted at hl ⊢
    obtain rfl | rfl | rfl | ⟨operator, operand, -, -, rfl⟩ := cases_of_mem_levelsBelow hchild
    · exact hl
    · simp only [Levels.grouped]
      omega
    · simp only [Levels.indexed]
      omega
    · simp only [Levels.signed]
      omega

theorem TokenAt.around_le (h : t.TokenAt l id) : l.around ≤ l.counted + l.dropped :=
  h.1.around_le (Nat.le_refl 0)

/-- All tokens below an entry are within the limit when those below its children are. -/
theorem countedWithin_iff {e : Entry} (he : t.get? id = some e) (hnode : ¬t.IsToken id) :
    t.CountedWithin limit l id ↔
      ∀ below ∈ t.levelsBelow l e, t.CountedWithin limit below.2 below.1 := by
  constructor
  · intro h below hbelow l' place hunder
    exact h l' place (.deeper he hbelow hunder)
  · intro h l' place hunder htoken
    cases hunder with
    | here => exact absurd htoken hnode
    | deeper he' hchild hunder =>
      rw [he] at he'
      cases he'
      exact h _ hchild _ _ hunder htoken

theorem countedWithin_token {rule : Rule} {span : Span} {text : String}
    (he : t.get? id = some ⟨rule, span, .token text⟩) :
    t.CountedWithin limit l id ↔ l.counted ≤ limit := by
  have hbelow : t.levelsBelow l ⟨rule, span, .token text⟩ = [] := by
    cases rule <;> rfl
  constructor
  · intro h
    exact h l id (.here l id) ⟨rule, span, text, he⟩
  · intro h l' place hunder htoken
    cases hunder with
    | here => exact h
    | deeper he' hchild _ =>
      rw [he] at he'
      cases he'
      rw [hbelow] at hchild
      cases hchild

theorem not_isToken {rule : Rule} {span : Span} {shape : Shape}
    (he : t.get? id = some ⟨rule, span, shape⟩) (hshape : ∀ text, shape ≠ .token text) :
    ¬t.IsToken id := by
  rintro ⟨rule', span', text, he'⟩
  rw [he] at he'
  cases he'
  exact hshape text rfl

/-- An only child has the levels of its parent. -/
theorem countedWithin_single {rule : Rule} {span : Span} {child : Place}
    (he : t.get? id = some ⟨rule, span, .node [child]⟩) :
    t.CountedWithin limit l id ↔ t.CountedWithin limit l child := by
  have hbelow : t.levelsBelow l ⟨rule, span, .node [child]⟩ = [(child, l)] := by
    cases rule <;> rfl
  rw [countedWithin_iff he (not_isToken he nofun), hbelow]
  simp

section entries

variable {rule rule' : Rule} {span span' span'' : Span} {text text' : String}

theorem countedWithin_group {opening inner closing : Place}
    (h : t.get? id = some ⟨.primary, span, .node [opening, inner, closing]⟩)
    (hopening : t.get? opening = some ⟨rule, span', .token text⟩)
    (hclosing : t.get? closing = some ⟨rule', span'', .token text'⟩) :
    t.CountedWithin limit l id ↔
      l.grouped.counted ≤ limit ∧ t.CountedWithin limit l.grouped inner := by
  rw [countedWithin_iff h (not_isToken h nofun)]
  simp only [levelsBelow, List.forall_mem_cons, List.not_mem_nil, false_implies, implies_true,
    and_true, countedWithin_token hopening, countedWithin_token hclosing]
  constructor
  · rintro ⟨hparen, hinner, -⟩
    exact ⟨hparen, hinner⟩
  · rintro ⟨hparen, hinner⟩
    exact ⟨hparen, hinner, hparen⟩

theorem countedWithin_index {base opening index closing : Place} {rule'' : Rule}
    {span₃ : Span} {text'' : String}
    (h : t.get? id = some ⟨.primary, span, .node [base, opening, index, closing]⟩)
    (hbase : t.get? base = some ⟨rule, span', .token text⟩)
    (hopening : t.get? opening = some ⟨rule', span'', .token text'⟩)
    (hclosing : t.get? closing = some ⟨rule'', span₃, .token text''⟩) :
    t.CountedWithin limit l id ↔
      l.counted ≤ limit ∧ l.indexed.counted ≤ limit ∧ t.CountedWithin limit l.indexed index := by
  rw [countedWithin_iff h (not_isToken h nofun)]
  simp only [levelsBelow, List.forall_mem_cons, List.not_mem_nil, false_implies, implies_true,
    and_true, countedWithin_token hbase, countedWithin_token hopening,
    countedWithin_token hclosing]
  constructor
  · rintro ⟨hname, hbracket, hinner, -⟩
    exact ⟨hname, hbracket, hinner⟩
  · rintro ⟨hname, hbracket, hinner⟩
    exact ⟨hname, hbracket, hinner, hbracket⟩

theorem countedWithin_signed {operator operand token : Place}
    (h : t.get? id = some ⟨.unary, span, .node [operator, operand]⟩)
    (hoperator : t.get? operator = some ⟨.unaryOperator, span', .node [token]⟩)
    (htoken : t.get? token = some ⟨rule, span'', .token text⟩) :
    t.CountedWithin limit l id ↔
      (l.signed (text.length - 1)).counted ≤ limit ∧
        t.CountedWithin limit (l.signed (text.length - 1)) operand := by
  have hothers : t.otherCharacters operator = text.length - 1 := by
    simp only [otherCharacters, Evaluation.symbolOf_eq hoperator rfl htoken]
  rw [countedWithin_iff h (not_isToken h nofun)]
  simp only [levelsBelow, hothers, List.forall_mem_cons, List.not_mem_nil, false_implies,
    implies_true, and_true, countedWithin_single hoperator, countedWithin_token htoken]

theorem countedWithin_tier {tr : Tier} {first many : Place} {groups : List OperatorGroup}
    (h : t.get? id = some ⟨.tier tr, span, .node [first, many]⟩)
    (hmany : t.get? many = some ⟨.repetition tr, span', .repetition groups⟩) :
    t.CountedWithin limit l id ↔ t.CountedWithin limit l first ∧
      ∀ child ∈ (Shape.repetition groups).children, t.CountedWithin limit l child := by
  rw [countedWithin_iff h (not_isToken h nofun)]
  have hbelow : t.levelsBelow l ⟨.tier tr, span, .node [first, many]⟩ = [(first, l), (many, l)] :=
    rfl
  have hrounds : t.levelsBelow l ⟨.repetition tr, span', .repetition groups⟩ =
      (Shape.repetition groups).children.map fun child => (child, l) := rfl
  simp only [hbelow, List.forall_mem_cons, List.not_mem_nil, false_implies, implies_true, and_true,
    countedWithin_iff hmany (not_isToken hmany nofun), hrounds, List.forall_mem_map]

end entries

end SyntaxTree

end Reckon
