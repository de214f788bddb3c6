import Reckon.Proofs.Grammar.Derivation

/-!
The failures on record. Rules that fail at a place join those that have failed
there, push out those of earlier places, and are dropped behind a later one. So
only the failures at the last place tell what has gone wrong, and these are
given by the state in which the scan of the text sticks.
-/

namespace Reckon

/-- The rule that is on record where no symbol of a tier stands: its only symbol, or its
operator. -/
def Tier.failure (t : Tier) : Rule :=
  match t.symbols with
  | [s] => .symbol s
  | _ => .tierOperator t

namespace Grammar

namespace Furthest

/-- The record once more rules have failed at a place. -/
def push (f : Furthest) (place : Nat) (rules : List Rule) : Furthest :=
  if f.offset < place then ⟨place, rules⟩
  else if f.offset = place then ⟨place, f.failed ++ rules⟩
  else f

/-- Rules have failed at a place since, and whatever fails there next joins them. -/
def Leaves (f f' : Furthest) (place : Nat) (rules : List Rule) : Prop :=
  ∀ more, f'.push place more = f.push place (rules ++ more)

variable {f f' f'' : Furthest} {place next : Nat} {rules more : List Rule} {r : Rule}

@[simp] theorem push_push (f : Furthest) (place : Nat) (rules more : List Rule) :
    (f.push place rules).push place more = f.push place (rules ++ more) := by
  unfold push
  split
  · simp
  · split
    · simp
    · simp [*]

/-- A failure further on pushes out what is on record. -/
theorem push_of_lt (f : Furthest) (rules more : List Rule) (h : place < next) :
    (f.push place rules).push next more = f.push next more := by
  unfold push
  grind

/-- A failure behind the last place changes nothing. -/
theorem push_behind (f : Furthest) (rules more : List Rule) (h : place < next) :
    (f.push next rules).push place more = f.push next rules := by
  unfold push
  grind

theorem empty_push (place : Nat) (rules : List Rule) : empty.push place rules = ⟨place, rules⟩ := by
  cases place <;> simp [push, empty]

/-- A rule without failures inside it fails itself. -/
theorem record_count (f : Furthest) (r : Rule) (place : Nat) :
    f.record r place (f.count place) = f.push place [r] := by
  unfold record push count
  grind

/-- A single failure inside a rule stands for the rule. -/
theorem record_single (f : Furthest) (a r : Rule) (place : Nat) :
    (f.push place [a]).record r place (f.count place) = f.push place [a] := by
  unfold record push count
  grind

/-- Several failures inside a rule are replaced by the rule. -/
theorem record_several (f : Furthest) (r : Rule) (place : Nat) (h : rules.length ≠ 1) :
    (f.push place rules).record r place (f.count place) = f.push place [r] := by
  unfold record push count
  grind

/-- A rule that starts behind the last failure leaves no record. -/
theorem record_behind (f : Furthest) (rules : List Rule) (r : Rule) (before : Nat)
    (h : place < next) : (f.push next rules).record r place before = f.push next rules := by
  unfold record push count
  grind

namespace Leaves

theorem refl (f : Furthest) (place : Nat) : f.Leaves f place [] := fun _ => rfl

theorem push_self (f : Furthest) (place : Nat) (rules : List Rule) :
    f.Leaves (f.push place rules) place rules := fun more => f.push_push place rules more

theorem trans (h : f.Leaves f' place rules) (h' : f'.Leaves f'' place more) :
    f.Leaves f'' place (rules ++ more) := by
  intro others
  rw [h', h, List.append_assoc]

/-- What has failed at a place does not matter further on. -/
theorem of_lt (h : f.Leaves f' place rules) (hlt : place < next) : f.Leaves f' next [] := by
  intro more
  rw [← f'.push_of_lt [] more hlt, h, f.push_of_lt _ more hlt, List.nil_append]

end Leaves

end Furthest

theorem Derives.exists_lastRule? {p : Part} {c stop : Cursor} {trees : List ParseTree}
    (h : Derives p c trees stop) (hp : p.expecting = .operand) :
    ∃ r, lastRule? (ParseTree.leavesOf trees) = some r := by
  obtain ⟨d, -, hreaches⟩ := h.reaches []
  rw [hp] at hreaches
  exact exists_lastRule?_of_ne_nil hreaches.ne_nil

/-- The rules that fail behind an operand with this last token: an index, if it is a name, and
the operators of some tiers, the tightest first. -/
def failedBehind (last : Option Rule) (ts : List Tier) : List Rule :=
  (if last = some .identifier then [.openBracket] else []) ++ ts.reverse.map Tier.failure

@[simp] theorem failedBehind_cons (last : Option Rule) (t : Tier) (ts : List Tier) :
    failedBehind last (t :: ts) = failedBehind last ts ++ [t.failure] := by
  simp [failedBehind]

/-- The rule that ends what stands in the innermost bracket. -/
def endingRule : List Bracket → Rule
  | [] => .endOfInput
  | bracket :: _ => bracket.closingRule

/-- The scan from here on sticks at a place, and these rules fail there. -/
inductive Sticks (s : Scanner) : Nat → List Rule → Prop
  | operand {tokens : List Token} {opened : List Bracket} {c : Cursor}
      (hreaches : Reaches s tokens ⟨.operand, opened, c⟩)
      (hnone : Scanner.next? ⟨.operand, opened, c⟩ = none) :
      Sticks s c.skipLayout.offset [.unary]
  | operator {tokens : List Token} {opened : List Bracket} {c : Cursor}
      (hreaches : Reaches s tokens ⟨.operator, opened, c⟩) (htokens : tokens ≠ [])
      (hnone : Scanner.next? ⟨.operator, opened, c⟩ = none)
      (hdone : Scanner.isDone ⟨.operator, opened, c⟩ = false) :
      Sticks s c.skipLayout.offset (failedBehind (lastRule? tokens) Tier.all ++ [endingRule opened])

namespace Sticks

variable {s s' : Scanner} {place : Nat} {failed : List Rule} {tokens : List Token}

theorem stuckAt? (h : Sticks s place failed) : s.run.stuckAt? = some place := by
  cases h with
  | operand hreaches hnone =>
    rw [hreaches.run, Scanner.run_of_next?_eq_none hnone]
    simp [Scanner.isDone]
  | operator hreaches _ hnone hdone =>
    rw [hreaches.run, Scanner.run_of_next?_eq_none hnone]
    simp [hdone]

/-- What a scan has read before does not matter. -/
theorem behind (h : Sticks s' place failed) (hreaches : Reaches s tokens s') :
    Sticks s place failed := by
  cases h with
  | operand hmore hnone => exact .operand (hreaches.trans hmore) hnone
  | operator hmore hne hnone hdone =>
    have h := Sticks.operator (hreaches.trans hmore) (by simp [hne]) hnone hdone
    rwa [lastRule?_append_of_ne_nil _ hne] at h

theorem offset_le (h : Sticks s place failed) : s.cursor.skipLayout.offset ≤ place :=
  Scanner.offset_le_of_stuckAt? h.stuckAt?

theorem cursor_offset_le (h : Sticks s place failed) : s.cursor.offset ≤ place :=
  s.cursor.offset_le_skipLayout.trans h.offset_le

/-- Layout before a scan makes no difference. -/
theorem before_layout {expecting : Expecting} {opened : List Bracket} {c c' : Cursor}
    (h : Sticks ⟨expecting, opened, c⟩ place failed) (hc : c'.PassesLayout c) :
    Sticks ⟨expecting, opened, c'⟩ place failed := by
  have hskip := hc.skipLayout_eq
  cases h with
  | operand hreaches hnone =>
    cases hreaches with
    | refl =>
      rw [← hskip]
      exact .operand (.refl _) (by simpa only [Scanner.next?, hskip] using hnone)
    | step hstep hmore => exact .operand (.step (hstep.restart hskip) hmore) hnone
  | operator hreaches hne hnone hdone =>
    cases hreaches with
    | refl => exact absurd rfl hne
    | step hstep hmore => exact .operator (.step (hstep.restart hskip) hmore) hne hnone hdone

/-- A scan that sticks behind a step and some layout sticks also from before the step. -/
theorem behind_step {expecting : Expecting} {opened : List Bracket} {c : Cursor}
    (h : Sticks ⟨expecting, opened, c.skipLayout⟩ place failed)
    (hstep : Step s tokens ⟨expecting, opened, c⟩) : Sticks s place failed :=
  (h.before_layout c.passesLayout_skipLayout).behind (.single hstep)

/-- A scan that sticks behind a step sticks further on. -/
theorem offset_lt_of_step {expecting : Expecting} {opened : List Bracket} {c : Cursor}
    (h : Sticks ⟨expecting, opened, c.skipLayout⟩ place failed)
    (hstep : Step s tokens ⟨expecting, opened, c⟩) : s.cursor.skipLayout.offset < place :=
  hstep.offset_lt.trans_le (h.before_layout c.passesLayout_skipLayout).cursor_offset_le

/-- An operand is missing, or something has been read before the scan sticks. -/
theorem eq_unary_or_lt (h : Sticks s place failed) :
    failed = [.unary] ∨ s.cursor.offset < place := by
  cases h with
  | operand => exact .inl rfl
  | operator hreaches hne =>
    exact .inr ((hreaches.offset_lt hne).trans_le (Cursor.offset_le_skipLayout _))

end Sticks

end Grammar

end Reckon
