import Reckon.Proofs.Expression.Denotation
import Reckon.Proofs.Grammar.Nesting
import Reckon.Proofs.Grammar.Respacing

/-!
Operands inside a text nest no deeper on their own. Where a scan waits for an
operand the nesting does too, and then a text that fits there fits also on its
own: the levels around it only add up, and no bracket of its own is closed
earlier. One bracket around a text makes it one level deeper at most.
-/

namespace Reckon

namespace Nesting

/-- Open brackets with levels, each of them at most that of a bracket of another row. -/
def Covers : List Nat → List Nat → Prop
  | _, [] => True
  | [], _ :: _ => False
  | levels :: outer, levels' :: outer' => levels' ≤ levels ∧ Covers outer outer'

/-- The sum of the levels is that of the open brackets. -/
def Summed (s : Nesting) : Prop := s.enclosing = s.opened.foldr (· + ·) 0

/-- A state is deeper than another that waits for the same. -/
structure Deeper (s s' : Nesting) : Prop where
  expects : s.expectsOperand = s'.expectsOperand
  pending : s'.pending ≤ s.pending
  covers : Covers s.opened s'.opened

theorem Covers.sum_le {opened opened' : List Nat} (h : Covers opened opened') :
    opened'.foldr (· + ·) 0 ≤ opened.foldr (· + ·) 0 := by
  induction opened' generalizing opened with
  | nil => exact Nat.zero_le _
  | cons levels' outer' ih =>
    cases opened with
    | nil => exact h.elim
    | cons levels outer =>
      simp only [List.foldr_cons]
      exact Nat.add_le_add h.1 (ih h.2)

theorem Deeper.depth_le {s s' : Nesting} (h : s.Deeper s') (hs : s.Summed) (hs' : s'.Summed) :
    s'.depth ≤ s.depth := by
  have hsum := h.covers.sum_le
  rw [← hs, ← hs'] at hsum
  exact Nat.add_le_add hsum h.pending

theorem Summed.step {s : Nesting} (h : s.Summed) (a : Char) : (s.step a).Summed := by
  obtain ⟨opened, enclosing, pending, expects⟩ := s
  obtain rfl : enclosing = opened.foldr (· + ·) 0 := h
  unfold Nesting.step
  split
  · simp [Summed, Nat.add_comm]
  split
  · cases opened <;> simp [Summed]
  split
  · rfl
  split
  · rfl
  split <;> rfl

theorem Summed.after {s : Nesting} (h : s.Summed) (text : List Char) : (s.after text).Summed := by
  induction text generalizing s with
  | nil => exact h
  | cons a text ih => exact ih (h.step a)

theorem Deeper.step {s s' : Nesting} (h : s.Deeper s') (a : Char) :
    (s.step a).Deeper (s'.step a) := by
  obtain ⟨opened, enclosing, pending, expects⟩ := s
  obtain ⟨opened', enclosing', pending', expects'⟩ := s'
  obtain ⟨rfl, hpending, hcovers⟩ := h
  unfold Nesting.step
  by_cases hopen : a = '(' ∨ a = '['
  · simp only [if_pos hopen]
    exact ⟨rfl, le_rfl, ⟨Nat.add_le_add_right hpending 1, hcovers⟩⟩
  simp only [if_neg hopen]
  by_cases hclose : a = ')' ∨ a = ']'
  · simp only [if_pos hclose]
    cases opened' with
    | nil =>
      cases opened with
      | nil => exact ⟨rfl, le_rfl, trivial⟩
      | cons => exact ⟨rfl, le_rfl, by simp [Covers]⟩
    | cons levels' outer' =>
      cases opened with
      | nil => exact hcovers.elim
      | cons levels outer => exact ⟨rfl, le_rfl, hcovers.2⟩
  simp only [if_neg hclose]
  by_cases hsign : (a = '+' ∨ a = '-' ∨ a = '!') ∧ expects = true
  · simp only [if_pos hsign]
    exact ⟨rfl, Nat.add_le_add_right hpending 1, hcovers⟩
  simp only [if_neg hsign]
  by_cases hblank : Text.isBlank a = true
  · simp only [if_pos hblank]
    exact ⟨rfl, hpending, hcovers⟩
  simp only [if_neg hblank]
  split
  · exact ⟨rfl, le_rfl, hcovers⟩
  · exact ⟨rfl, hpending, hcovers⟩

/-- What fits into a limit in a state fits in every state that is less deep. -/
theorem Fits.of_deeper {limit : Nat} {s s' : Nesting} {text : List Char} (h : Fits limit s text)
    (hdeeper : s.Deeper s') (hs : s.Summed) (hs' : s'.Summed) : Fits limit s' text := by
  induction text generalizing s s' with
  | nil => trivial
  | cons a text ih =>
    have hstep := hdeeper.step a
    have hle := hstep.depth_le (hs.step a) (hs'.step a)
    exact ⟨hle.trans h.1, ih h.2 hstep (hs.step a) (hs'.step a)⟩

section enclosed

variable {s s' : Nesting} {limit limit' : Nat} {text : List Char}

/-- A state is that of a text within one more bracket, as long as the text has not closed it. -/
structure Enclosed (s s' : Nesting) : Prop where
  expects : s'.expectsOperand = s.expectsOperand
  pending : s'.pending = s.pending
  opened : s'.opened = s.opened ++ [1] ∨ s'.opened = s.opened

theorem Enclosed.depth_le (h : s.Enclosed s') (hs : s.Summed) (hs' : s'.Summed) :
    s'.depth ≤ s.depth + 1 := by
  have hsum : s'.opened.sum ≤ s.opened.sum + 1 := by
    rcases h.opened with hopened | hopened
    · rw [hopened, List.sum_append, List.sum_singleton]
    · rw [hopened]
      exact Nat.le_succ _
  have henclosing : s.enclosing = s.opened.sum := hs
  have henclosing' : s'.enclosing = s'.opened.sum := hs'
  have hpending := h.pending
  unfold depth
  omega

theorem Enclosed.step (h : s.Enclosed s') (a : Char) : (s.step a).Enclosed (s'.step a) := by
  obtain ⟨opened, enclosing, pending, expects⟩ := s
  obtain ⟨opened', enclosing', pending', expects'⟩ := s'
  obtain ⟨hexpects, hpending, hopened⟩ := h
  dsimp only at hexpects hpending hopened
  subst hexpects hpending
  unfold Nesting.step
  split
  · rcases hopened with rfl | rfl
    · exact ⟨rfl, rfl, .inl rfl⟩
    · exact ⟨rfl, rfl, .inr rfl⟩
  split
  · -- the bracket around the text is closed where the text closes more than it opens
    rcases hopened with rfl | rfl
    · cases opened with
      | nil => exact ⟨rfl, rfl, .inr rfl⟩
      | cons => exact ⟨rfl, rfl, .inl rfl⟩
    · cases opened' with
      | nil => exact ⟨rfl, rfl, .inr rfl⟩
      | cons => exact ⟨rfl, rfl, .inr rfl⟩
  split
  · exact ⟨rfl, rfl, hopened⟩
  split
  · exact ⟨rfl, rfl, hopened⟩
  split
  · exact ⟨rfl, rfl, hopened⟩
  · exact ⟨rfl, rfl, hopened⟩

/-- Within a bracket a text fits into every larger limit. -/
theorem Fits.enclosed (h : Fits limit s text) (hs : s.Enclosed s') (hlimit : limit < limit')
    (hsum : s.Summed) (hsum' : s'.Summed) : Fits limit' s' text := by
  induction text generalizing s s' with
  | nil => trivial
  | cons a text ih =>
    have hstep := hs.step a
    have hle := hstep.depth_le (hsum.step a) (hsum'.step a)
    have hfits := h.1
    exact ⟨by omega, ih h.2 hstep (hsum.step a) (hsum'.step a)⟩

end enclosed

/-- What a scan waits for, the nesting of the text before it waits for too. Before an operator no
sign is pending. -/
def Waits (s : Nesting) : Grammar.Expecting → Prop
  | .operand => s.expectsOperand = true
  | .operator => s.settled = s

theorem waits_settled (s : Nesting) : s.settled.Waits .operator := rfl

theorem waits_closing (s : Nesting) (bracket : Grammar.Bracket) :
    (s.step bracket.closing).Waits .operator := by
  obtain ⟨opened, enclosing, pending, expects⟩ := s
  cases bracket <;> cases opened <;> rfl

theorem waits_open {a : Char} (h : a = '(' ∨ a = '[') (s : Nesting) :
    (s.step a).Waits .operand := by
  rw [step_open h]
  rfl

end Nesting

namespace Grammar

open Nesting

/-- A step of a scan reads a text behind which the nesting waits for what the scan waits for. -/
theorem Step.waits {s s' : Scanner} {tokens : List Token} (h : Step s tokens s') {n : Nesting}
    (hn : n.Waits s.expecting) :
    ∃ text, s.cursor.Passes text s'.cursor ∧ (n.after text).Waits s'.expecting := by
  have hlayout : ∀ {c d : Cursor} (n : Nesting), d = c.skipLayout →
      ∃ layout, c.Passes layout d ∧ n.after layout = n := by
    rintro c d n rfl
    obtain ⟨layout, hlayout, hpass⟩ := c.passes_skipLayout
    exact ⟨layout, hpass, (leads_layout hlayout n).1⟩
  have hafter : ∀ (first second : List Char) (n : Nesting),
      n.after (first ++ second) = (n.after first).after second := by
    intro first second n
    exact List.foldl_append
  cases h with
  | @sign opened c d symbol rest hd hsymbol =>
    obtain ⟨op, rfl⟩ := exists_unaryOperator hsymbol
    obtain ⟨layout, hpass, hkeeps⟩ := hlayout n hd
    refine ⟨_, hpass.trans (Cursor.passes_after (Symbol.append_of_unaryAt? hsymbol)), ?_⟩
    obtain ⟨opened, enclosing, pending, expects⟩ := n
    obtain rfl : expects = true := hn
    rw [hafter, hkeeps, (leads_unary op opened enclosing pending).1]
    rfl
  | @paren opened c d rest hd hopen =>
    obtain ⟨layout, hpass, hkeeps⟩ := hlayout n hd
    refine ⟨_, hpass.trans (Cursor.passes_after_cons hopen), ?_⟩
    rw [hafter, hkeeps]
    exact waits_open (.inl rfl) n
  | @number opened c d lexeme rest hd hnumber =>
    obtain ⟨layout, hpass, hkeeps⟩ := hlayout n hd
    obtain ⟨hform, htext⟩ := Lexeme.isNumber_of_number? hnumber
    refine ⟨_, hpass.trans (Cursor.passes_after htext), ?_⟩
    rw [hafter, hkeeps, (leads_number hform n).1]
    exact waits_settled n
  | @name opened c d lexeme rest hd hname hbare =>
    obtain ⟨layout, hpass, hkeeps⟩ := hlayout n hd
    refine ⟨_, hpass.trans (Cursor.passes_after (Lexeme.identifier?_eq_some hname).1), ?_⟩
    rw [hafter, hkeeps, (leads_name hname n).1]
    exact waits_settled n
  | @indexed opened c d e lexeme rest inner hd hname he hopen =>
    obtain ⟨layout, hpass, hkeeps⟩ := hlayout n hd
    obtain ⟨layout', hpass', hkeeps'⟩ := hlayout n.settled he
    have hword := hpass.trans (Cursor.passes_after (Lexeme.identifier?_eq_some hname).1)
    refine ⟨_, (hword.trans hpass').trans (Cursor.passes_after_cons hopen), ?_⟩
    rw [hafter, hafter, hafter, hkeeps, (leads_name hname n).1, hkeeps']
    exact waits_open (.inr rfl) n.settled
  | @operator opened c d symbol rest hd hsymbol =>
    obtain ⟨hs, -, -⟩ := Symbol.binaryAt?_eq_some.mp hsymbol
    obtain ⟨t, -, hs⟩ := List.mem_flatMap.mp hs
    obtain ⟨op, rfl, -⟩ := exists_binaryOperator hs
    obtain ⟨layout, hpass, hkeeps⟩ := hlayout n hd
    refine ⟨_, hpass.trans (Cursor.passes_after (Symbol.append_of_binaryAt? hsymbol)), ?_⟩
    have hop := leads_binary op n
    rw [show n.settled = n from hn] at hop
    rw [hafter, hkeeps, hop.1]
    rfl
  | @closing opened c d rest bracket hd hclose =>
    obtain ⟨layout, hpass, hkeeps⟩ := hlayout n hd
    refine ⟨_, hpass.trans (Cursor.passes_after_cons hclose), ?_⟩
    rw [hafter, hkeeps]
    exact waits_closing n bracket

theorem Reaches.waits {s s' : Scanner} {tokens : List Token} (h : Reaches s tokens s')
    {n : Nesting} (hn : n.Waits s.expecting) :
    ∃ text, s.cursor.Passes text s'.cursor ∧ (n.after text).Waits s'.expecting := by
  induction h generalizing n with
  | refl s => exact ⟨[], .refl _, hn⟩
  | step hstep _ ih =>
    obtain ⟨text, hpass, hwaits⟩ := hstep.waits hn
    obtain ⟨text', hpass', hwaits'⟩ := ih hwaits
    refine ⟨text ++ text', hpass.trans hpass', ?_⟩
    rwa [Nesting.after, List.foldl_append]

/-- A text that starts where a scan waits for an operand fits on its own into every limit into
which the text around it fits. -/
theorem Reaches.fits {source text rest : List Char} {tokens : List Token}
    {opened : List Bracket} {c d : Cursor} {limit : Nat}
    (h : Reaches (.start source) tokens ⟨.operand, opened, c⟩) (hlayout : c.PassesLayout d)
    (hd : d.rest = text ++ rest) (hfits : Fits limit .start source) : Fits limit .start text := by
  obtain ⟨before, ⟨hsource, -⟩, hwaits⟩ := h.waits (n := .start) rfl
  obtain ⟨layout, hlayout, ⟨hrest, -⟩⟩ := hlayout
  replace hsource : source = before ++ (layout ++ (text ++ rest)) := by
    rw [← hd, ← hrest]
    exact hsource
  rw [hsource, fits_append, fits_append, fits_append] at hfits
  have hinside := hfits.2.2.1
  rw [(leads_layout hlayout _).1] at hinside
  have hsummed : Nesting.start.Summed := rfl
  refine hinside.of_deeper ⟨hwaits, Nat.zero_le _, ?_⟩ (hsummed.after before) hsummed
  cases (Nesting.start.after before).opened <;> trivial

end Grammar

end Reckon
