import Reckon.Proofs.Grammar.Matching

/-!
Ordered choice measured against the scan. A matcher may give a failed group or
index up again and succeed with less than it has read, but then what stands
behind its match is a symbol or a bracket that no later matcher takes. So the
matching of a part has one of two ends. Either it reads the part, as a
derivation says, and no symbol of its tiers follows. Or the scan of the text
sticks, and the furthest failure on record is where it does.
-/

namespace Reckon.Grammar

variable {c stop : Cursor} {f f' f'' : Furthest}

/-- The tiers whose symbols a part takes when they follow it. -/
def Part.reach : Part → List Tier
  | operand => []
  | tiers ts => ts
  | rounds t tighter => t :: tighter
  | expression => Tier.all

/-- A symbol of one of some tiers stands behind the layout here. -/
def Follows (ts : List Tier) (c : Cursor) : Prop :=
  ∃ s rest, Symbol.binaryAt? c.skipLayout.rest = some (s, rest) ∧ ∃ t ∈ ts, s ∈ t.symbols

theorem follows_skipLayout (ts : List Tier) (c : Cursor) :
    Follows ts c.skipLayout ↔ Follows ts c := by
  simp only [Follows, Cursor.skipLayout_skipLayout]

/-- A matching has read a part behind a token with this rule, if behind one: it ends as a
derivation does, no symbol of the part's tiers follows, and what fails next joins the failures
behind an operand. -/
def Reads (p : Part) (c : Cursor) (f : Furthest) (last : Option Rule) (out : Outcome) : Prop :=
  ∃ trees stop, out.1 = some (trees, stop) ∧ Derives p c trees stop ∧ ¬ Follows p.reach stop ∧
    f.Leaves out.2 stop.skipLayout.offset
      (failedBehind ((lastRule? (ParseTree.leavesOf trees)).or last) p.reach)

/-- A matching has come upon text that the scan sticks at, and its last failures are those of the
scan. If it still has a match, a symbol of the part's tiers or a bracket stands behind it, which
no other tier takes. -/
structure StraysAt (p : Part) (c : Cursor) (f : Furthest) (out : Outcome) (place : Nat)
    (failed : List Rule) : Prop where
  sticks : ∀ opened, Sticks ⟨p.expecting, opened, c⟩ place failed
  record : out.2 = f.push place failed
  match_behind : ∀ trees stop, out.1 = some (trees, stop) → stop.skipLayout.offset < place ∧
    (Follows p.reach stop ∨ stop.skipLayout.rest.head? = some '[')

def Strays (p : Part) (c : Cursor) (f : Furthest) (out : Outcome) : Prop :=
  ∃ place failed, StraysAt p c f out place failed

/-- The two ends that the matching of a part may have. -/
def Settles (p : Part) (c : Cursor) (f : Furthest) (last : Option Rule) (out : Outcome) : Prop :=
  Reads p c f last out ∨ Strays p c f out

/-- A matching without a match strays where its last failures are those of the scan. -/
theorem StraysAt.of_none {p : Part} {place : Nat} {failed : List Rule}
    (hsticks : ∀ opened, Sticks ⟨p.expecting, opened, c⟩ place failed) :
    StraysAt p c f (none, f.push place failed) place failed where
  sticks := hsticks
  record := rfl
  match_behind _ _ h := absurd h.symm (Option.some_ne_none _)

/-- Where the scan sticks, the rules around leave the failures as they are. -/
theorem rule_eq_none_of_sticks {body : Matcher} {place : Nat} {failed : List Rule}
    {expecting : Expecting} {opened : List Bracket}
    (hsticks : Sticks ⟨expecting, opened, c⟩ place failed)
    (h : body c f = (none, f.push place failed)) (r : Rule) :
    rule r body c f = (none, f.push place failed) := by
  rcases hsticks.cursor_offset_le.eq_or_lt with rfl | hlt
  · obtain rfl := hsticks.eq_unary_or_lt.resolve_right (lt_irrefl _)
    exact rule_eq_none_single h
  · exact rule_eq_none_behind h hlt

/-- The rule of a part strays where its body does. -/
theorem StraysAt.in_rule {p : Part} {matcher : Matcher} {place : Nat} {failed : List Rule}
    (h : StraysAt p c f (matcher c f) place failed) (p' : Part)
    (hexpecting : p'.expecting = p.expecting) (hreach : p'.reach = p.reach) (r : Rule) :
    StraysAt p' c f (rule r matcher c f) place failed := by
  rcases hrun : matcher c f with ⟨found, f₁⟩
  rw [hrun] at h
  obtain ⟨hsticks, rfl, hmatch⟩ := h
  rw [← hexpecting] at hsticks
  cases found with
  | none =>
    rw [rule_eq_none_of_sticks (hsticks []) hrun r]
    exact .of_none hsticks
  | some found =>
    obtain ⟨trees, stop⟩ := found
    rw [rule_eq_some hrun]
    refine ⟨hsticks, rfl, ?_⟩
    rintro trees' stop' ⟨⟩
    rw [hreach]
    exact hmatch trees stop rfl

/-- A matching that settles every text of less than `bound` characters. -/
def SettlesBelow (p : Part) (bound : Nat) (matcher : Matcher) : Prop :=
  ∀ c f, c.rest.length < bound → c.skipLayout = c → Settles p c f none (matcher c f)

theorem exists_tier_of_binaryAt? {text rest : List Char} {s : Symbol}
    (h : Symbol.binaryAt? text = some (s, rest)) : ∃ t ∈ Tier.all, s ∈ t.symbols := by
  unfold Symbol.binaryAt? at h
  split at h <;> cases h <;> decide

/-- Where no symbol of any tier follows, the scan finds none. -/
theorem binaryAt?_eq_none_of_not_follows (h : ¬ Follows Tier.all c) :
    Symbol.binaryAt? c.skipLayout.rest = none := by
  cases hfound : Symbol.binaryAt? c.skipLayout.rest with
  | none => rfl
  | some found => exact absurd ⟨_, _, hfound, exists_tier_of_binaryAt? hfound⟩ h

/-- A symbol or an opening bracket closes no bracket. -/
theorem head?_ne_closing {ts : List Tier}
    (h : Follows ts c ∨ c.skipLayout.rest.head? = some '[') (bracket : Bracket) :
    c.skipLayout.rest.head? ≠ some bracket.closing := by
  intro hhead
  rcases h with ⟨s, rest, hsymbol, -⟩ | hopen
  · obtain ⟨more, hmore⟩ := List.head?_eq_some_iff.mp hhead
    rw [hmore, Scanner.binaryAt?_closing] at hsymbol
    cases hsymbol
  · rw [hopen] at hhead
    cases bracket <;> exact absurd hhead (by decide)

/-- Behind an operand that no symbol follows the scan sticks at anything but the end that it waits
for. -/
theorem Derives.sticks {p : Part} {trees : List ParseTree} (h : Derives p c trees stop)
    (hp : p.expecting = .operand) (hfollows : ¬ Follows Tier.all stop) {opened : List Bracket}
    (hclose : ∀ bracket ∈ opened.head?, stop.skipLayout.rest.head? ≠ some bracket.closing)
    (hend : opened = [] → stop.skipLayout.rest ≠ []) :
    Sticks ⟨.operand, opened, c⟩ stop.skipLayout.offset
      (failedBehind (lastRule? (ParseTree.leavesOf trees)) Tier.all ++ [endingRule opened]) := by
  obtain ⟨d, hd, hreaches⟩ := h.reaches opened
  rw [hp] at hreaches
  have hnone : Scanner.next? ⟨.operator, opened, d⟩ = none := by
    have hsymbol := binaryAt?_eq_none_of_not_follows hfollows
    rw [← hd.skipLayout_eq] at hsymbol hclose
    exact Scanner.operator?_eq_none hsymbol hclose
  have hdone : Scanner.isDone ⟨.operator, opened, d⟩ = false := by
    cases opened with
    | nil => simp [Scanner.isDone, hd.skipLayout_eq, hend rfl]
    | cons => rfl
  rw [← hd.skipLayout_eq]
  exact .operator hreaches hreaches.ne_nil hnone hdone

/-- An expression in brackets is matched with the bracket that closes it, or nothing is and the
scan sticks inside or at another closing. -/
theorem enclosed_settles {bound : Nat} {inner : Matcher}
    (hinner : SettlesBelow .expression bound inner) {ropen : Rule} {a : Char}
    {rest : List Char} (hopen : c.rest = a :: rest) (hbound : rest.length < bound)
    (bracket : Bracket) {out : Outcome}
    (hout : andThen (Grammar.bracket ropen a)
      (andThen inner (Grammar.bracket bracket.closingRule bracket.closing)) c f = out) :
    (∃ tree e outer, out.1 = some ([c.leaf ropen [a] rest, tree,
          e.skipLayout.leaf bracket.closingRule [bracket.closing] outer],
          e.skipLayout.after [bracket.closing] outer) ∧
        Derives .expression (c.after [a] rest).skipLayout [tree] e ∧
        e.skipLayout.rest = bracket.closing :: outer ∧
        ∃ rules, f.Leaves out.2 e.skipLayout.offset rules) ∨
      ∃ place failed, out = (none, f.push place failed) ∧ c.offset < place ∧
        ∀ opened, Sticks ⟨.operand, bracket :: opened, c.after [a] rest⟩ place failed := by
  have hstart : Grammar.bracket ropen a c f =
      (some ([c.leaf ropen [a] rest], c.after [a] rest), f) :=
    token_eq_some (by rw [hopen, Lexeme.exactly?_cons])
  have hlength := (c.after [a] rest).length_skipLayout_le
  have hlayout := (c.after [a] rest).passesLayout_skipLayout
  have hoffset := (c.offset_lt_after a [] rest).trans_le (Cursor.offset_le_skipLayout _)
  rcases hrun : inner (c.after [a] rest).skipLayout f with ⟨found, f₁⟩
  have hsettles := hinner (c.after [a] rest).skipLayout f (lt_of_le_of_lt hlength hbound)
    (Cursor.skipLayout_skipLayout _)
  rw [hrun] at hsettles
  rcases hsettles with ⟨trees, e, rfl, hderives, hfollows, hleaves⟩ |
    ⟨place, failed, hsticks, rfl, hmatch⟩
  · obtain ⟨tree, rfl⟩ := hderives.exists_eq_singleton rfl
    by_cases hclose : e.skipLayout.rest.head? = some bracket.closing
    · obtain ⟨outer, houter⟩ := List.head?_eq_some_iff.mp hclose
      have hlast : Grammar.bracket bracket.closingRule bracket.closing e.skipLayout f₁ =
          (some ([e.skipLayout.leaf bracket.closingRule [bracket.closing] outer],
            e.skipLayout.after [bracket.closing] outer), f₁) :=
        token_eq_some (by rw [houter, Lexeme.exactly?_cons])
      rw [← hout, andThen_eq_some hstart (andThen_eq_some hrun hlast)]
      exact .inl ⟨tree, e, outer, rfl, hderives, houter, _, hleaves⟩
    · have hlast : Grammar.bracket bracket.closingRule bracket.closing e.skipLayout f₁ = _ :=
        token_eq_none (Lexeme.exactly?_eq_none hclose)
      rw [← hout, andThen_eq_none_right hstart (andThen_eq_none_right hrun hlast), hleaves]
      have hend := hderives.offset_le_skipLayout
      refine .inr ⟨_, _, rfl, hoffset.trans_le hend, fun opened => ?_⟩
      have hsticks : Sticks ⟨.operand, bracket :: opened, _⟩ _ _ :=
        hderives.sticks rfl hfollows (by simpa using hclose) (by simp)
      simpa [endingRule, Part.reach] using hsticks.before_layout hlayout
  · have hplace := hoffset.trans_le (hsticks []).cursor_offset_le
    have hsticks' := fun opened => (hsticks (bracket :: opened)).before_layout hlayout
    cases found with
    | none =>
      rw [← hout, andThen_eq_none_right hstart (andThen_eq_none_left hrun)]
      exact .inr ⟨place, failed, rfl, hplace, hsticks'⟩
    | some found =>
      obtain ⟨trees, stop⟩ := found
      obtain ⟨hstop, hnext⟩ := hmatch trees stop rfl
      have hlast : Grammar.bracket bracket.closingRule bracket.closing stop.skipLayout
          (f.push place failed) = _ :=
        token_eq_none (Lexeme.exactly?_eq_none (head?_ne_closing hnext bracket))
      rw [← hout, andThen_eq_none_right hstart (andThen_eq_none_right hrun hlast),
        f.push_behind failed _ hstop]
      exact .inr ⟨place, failed, rfl, hplace, hsticks'⟩

end Reckon.Grammar
