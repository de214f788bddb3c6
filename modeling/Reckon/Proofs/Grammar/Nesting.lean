import Reckon.Grammar.Nesting
import Reckon.Proofs.Expression.Basic
import Reckon.Proofs.Grammar.Scanner
import Reckon.Text.Basic

/-!
What the lexemes of a text do to its nesting. An opening bracket takes the
signs before it into the level it opens, a sign before an operand is one level
for each of its characters, and a word drops the signs before it. Whether a
text fits into a limit is decided at its brackets and signs alone.
-/

namespace Reckon.Nesting

open Grammar

def after (s : Nesting) (text : List Char) : Nesting := text.foldl step s

/-- No character of a text exceeds a limit. -/
def Fits (limit : Nat) (s : Nesting) : List Char → Prop
  | [] => True
  | a :: text => (s.step a).depth ≤ limit ∧ Fits limit (s.step a) text

theorem fits_append {limit : Nat} {s : Nesting} {first second : List Char} :
    Fits limit s (first ++ second) ↔ Fits limit s first ∧ Fits limit (s.after first) second := by
  induction first generalizing s with
  | nil => simp [Fits, after]
  | cons a first ih =>
    rw [List.cons_append, Fits, Fits, ih, and_assoc]
    rfl

theorem depth_after_le {limit : Nat} {s : Nesting} {text : List Char} (h : Fits limit s text)
    (hs : s.depth ≤ limit) : (s.after text).depth ≤ limit := by
  induction text generalizing s with
  | nil => exact hs
  | cons a text ih => exact ih h.2 h.1

/-- A scan comes to its end when the text fits into the limit. -/
theorem exists_scan_eq_ok_iff {limit : Nat} {s : Nesting} {text : List Char}
    (deepest offset : Nat) :
    (∃ n, scan limit s deepest offset text = .ok n) ↔ Fits limit s text := by
  induction text generalizing s deepest offset with
  | nil => exact ⟨fun _ => trivial, fun _ => ⟨deepest, rfl⟩⟩
  | cons a text ih =>
    by_cases hlimit : limit < (s.step a).depth
    · have hstep : ¬(s.step a).depth ≤ limit := Nat.not_le.mpr hlimit
      simp [scan, Fits, hlimit, hstep]
    · simp only [scan, if_neg hlimit, ih, Fits]
      exact (and_iff_right (Nat.le_of_not_lt hlimit)).symm

theorem exists_deepest_eq_ok_iff {limit : Nat} {source : List Char} :
    (∃ nesting, deepest limit source = .ok nesting) ↔ Fits limit start source :=
  exists_scan_eq_ok_iff 0 0

/-- A character opens one more level at most. -/
theorem depth_step_le (s : Nesting) (a : Char) : (s.step a).depth ≤ s.depth + 1 := by
  unfold step depth
  split
  · simp only
    omega
  · split
    · cases s.opened with
      | nil =>
        simp only
        omega
      | cons levels outer =>
        simp only
        omega
    · split
      · simp only
        omega
      · split
        · omega
        · split <;> simp only <;> omega

/-- A text fits where a level is left for each of its characters. -/
theorem fits_of_length {limit : Nat} {s : Nesting} {text : List Char}
    (h : s.depth + text.length ≤ limit) : Fits limit s text := by
  induction text generalizing s with
  | nil => trivial
  | cons a text ih =>
    rw [List.length_cons] at h
    have hstep := s.depth_step_le a
    exact ⟨by omega, ih (by omega)⟩

/-- A text is never deeper than it is long. -/
theorem exists_deepest_eq_ok {limit : Nat} {source : List Char} (h : source.length ≤ limit) :
    ∃ nesting, deepest limit source = .ok nesting :=
  exists_deepest_eq_ok_iff.mpr (fits_of_length (by simpa [depth, start] using h))

theorem step_open {a : Char} (h : a = '(' ∨ a = '[') (s : Nesting) :
    s.step a = ⟨(s.pending + 1) :: s.opened, s.enclosing + (s.pending + 1), 0, true⟩ := by
  simp only [step, if_pos h]

theorem step_closing (bracket : Bracket) (levels : Nat) (outer : List Nat) (enclosing : Nat) :
    step ⟨levels :: outer, enclosing, 0, false⟩ bracket.closing =
      ⟨outer, enclosing - levels, 0, false⟩ := by
  cases bracket <;> rfl

theorem step_layout {a : Char} (h : isLayout a = true) (s : Nesting) : s.step a = s := by
  simp only [isLayout, Bool.or_eq_true, decide_eq_true_eq] at h
  rcases h with ((rfl | rfl) | rfl) | rfl <;> rfl

/-- Layout plays no part in the nesting of a text: the deepest level is that of the characters
between, or the excess has the same depth. -/
theorem scan_filter {limit : Nat} {s : Nesting} {deepest : Nat} (hs : s.depth ≤ deepest)
    (hdeepest : deepest ≤ limit) (text : List Char) (offset offset' : Nat) :
    (scan limit s deepest offset text).mapError (fun e => (e.depth, e.limit)) =
      (scan limit s deepest offset' (text.filter fun a => !isLayout a)).mapError
        fun e => (e.depth, e.limit) := by
  induction text generalizing s deepest offset offset' with
  | nil => rfl
  | cons a text ih =>
    by_cases ha : isLayout a = true
    · have hfits : ¬limit < s.depth := by omega
      rw [List.filter_cons_of_neg (by simp [ha]), scan, step_layout ha, if_neg hfits,
        Nat.max_eq_left hs]
      exact ih hs hdeepest _ _
    · rw [List.filter_cons_of_pos (by simp [ha]), scan, scan]
      by_cases hlimit : limit < (s.step a).depth
      · rw [if_pos hlimit, if_pos hlimit]
        rfl
      · rw [if_neg hlimit, if_neg hlimit]
        exact ih (by omega) (by omega) _ _

/-- Texts that differ in their layout only nest alike. -/
theorem deepest_congr {source source' : List Char}
    (h : source.filter (fun a => !isLayout a) = source'.filter fun a => !isLayout a)
    (limit : Nat) :
    (deepest limit source).mapError (fun e => (e.depth, e.limit)) =
      (deepest limit source').mapError fun e => (e.depth, e.limit) := by
  have hstart : start.depth ≤ 0 := Nat.le_refl 0
  rw [deepest, deepest, scan_filter hstart (Nat.zero_le _) source 0 0, h,
    ← scan_filter hstart (Nat.zero_le _) source' 0 0]

/-- The state in which the operand before is done. -/
def settled (s : Nesting) : Nesting := { s with pending := 0, expectsOperand := false }

theorem step_word {a : Char} (h : Lexeme.isWord a = true) (s : Nesting) :
    s.step a = s.settled := by
  have hword : a.isAlphanum = true ∨ a = '_' ∨ a = '.' := by
    simpa [Lexeme.isWord, or_assoc] using h
  have hopen : ¬(a = '(' ∨ a = '[') := by
    rintro (rfl | rfl) <;> cases h
  have hclose : ¬(a = ')' ∨ a = ']') := by
    rintro (rfl | rfl) <;> cases h
  have hsign : ¬((a = '+' ∨ a = '-' ∨ a = '!') ∧ s.expectsOperand = true) := by
    rintro ⟨rfl | rfl | rfl, -⟩ <;> cases h
  have hblank : ¬Text.isBlank a = true := by
    simp [Lexeme.isBlank_eq_false_of_isWord h]
  simp only [step, if_neg hopen, if_neg hclose, if_neg hsign, if_neg hblank, if_pos hword]
  rfl

/-- A text leads from one state to another. Where the first is within a limit, the text fits into
the limit if it is one that the text allows. -/
def Leads (s : Nesting) (text : List Char) (s' : Nesting) (allows : Nat → Prop) : Prop :=
  s.after text = s' ∧ ∀ limit, s.depth ≤ limit → (Fits limit s text ↔ allows limit)

section leads

variable {s s' s'' : Nesting} {text text' : List Char} {allows allows' : Nat → Prop}

theorem Leads.trans (h : s.Leads text s' allows) (h' : s'.Leads text' s'' allows') :
    s.Leads (text ++ text') s'' fun limit => allows limit ∧ allows' limit := by
  obtain ⟨rfl, hfits⟩ := h
  obtain ⟨rfl, hfits'⟩ := h'
  refine ⟨List.foldl_append, ?_⟩
  intro limit hs
  rw [fits_append]
  constructor
  · rintro ⟨hfirst, hsecond⟩
    exact ⟨(hfits limit hs).mp hfirst, (hfits' limit (depth_after_le hfirst hs)).mp hsecond⟩
  · rintro ⟨hfirst, hsecond⟩
    have hfirst' := (hfits limit hs).mpr hfirst
    exact ⟨hfirst', (hfits' limit (depth_after_le hfirst' hs)).mpr hsecond⟩

theorem Leads.congr (h : s.Leads text s' allows)
    (hiff : ∀ limit, s.depth ≤ limit → (allows limit ↔ allows' limit)) :
    s.Leads text s' allows' :=
  ⟨h.1, fun limit hs => (h.2 limit hs).trans (hiff limit hs)⟩

/-- A text that allows every limit may come before another. -/
theorem Leads.before (h : s.Leads text s' fun _ => True) (h' : s'.Leads text' s'' allows) :
    s.Leads (text ++ text') s'' allows :=
  (h.trans h').congr fun _ _ => iff_of_eq (true_and _)

theorem Leads.behind (h : s.Leads text s' allows) (h' : s'.Leads text' s'' fun _ => True) :
    s.Leads (text ++ text') s'' allows :=
  (h.trans h').congr fun _ _ => iff_of_eq (and_true _)

theorem leads_nil (s : Nesting) : s.Leads [] s fun _ => True :=
  ⟨rfl, fun _ _ => Iff.rfl⟩

theorem leads_singleton {a : Char} (h : s.step a = s') :
    s.Leads [a] s' fun limit => s'.depth ≤ limit := by
  subst h
  exact ⟨rfl, fun limit _ => and_iff_left trivial⟩

theorem leads_of_depth_le {a : Char} (h : s.step a = s') (hdepth : s'.depth ≤ s.depth) :
    s.Leads [a] s' fun _ => True :=
  (leads_singleton h).congr fun _ hs => iff_of_true (hdepth.trans hs) trivial

theorem depth_settled_le (s : Nesting) : s.settled.depth ≤ s.depth := Nat.le_add_right _ _

theorem leads_layout {layout : List Char} (h : ∀ a ∈ layout, isLayout a = true) (s : Nesting) :
    s.Leads layout s fun _ => True := by
  induction layout with
  | nil => exact leads_nil s
  | cons a layout ih =>
    have hstep := leads_of_depth_le (step_layout (h a List.mem_cons_self) s) le_rfl
    exact hstep.before (ih fun b hb => h b (List.mem_cons_of_mem _ hb))

/-- Behind the first character of a word nothing changes. -/
theorem leads_settled {word : List Char} (h : ∀ a ∈ word, Lexeme.isWord a = true) (s : Nesting) :
    s.settled.Leads word s.settled fun _ => True := by
  induction word with
  | nil => exact leads_nil _
  | cons a word ih =>
    have hstep := leads_of_depth_le (step_word (h a List.mem_cons_self) s.settled)
      (depth_settled_le _)
    exact hstep.before (ih fun b hb => h b (List.mem_cons_of_mem _ hb))

theorem leads_word {word : List Char} (h : ∀ a ∈ word, Lexeme.isWord a = true) (hne : word ≠ [])
    (s : Nesting) : s.Leads word s.settled fun _ => True := by
  obtain ⟨a, more, rfl⟩ := List.exists_cons_of_ne_nil hne
  have hstep := leads_of_depth_le (step_word (h a List.mem_cons_self) s) s.depth_settled_le
  exact hstep.before (leads_settled (fun b hb => h b (List.mem_cons_of_mem _ hb)) s)

/-- A sign behind a word is no level. -/
theorem leads_sign {a : Char} (h : a = '+' ∨ a = '-') (s : Nesting) :
    s.settled.Leads [a] { s.settled with expectsOperand := true } fun _ => True := by
  apply leads_of_depth_le
  · rcases h with rfl | rfl <;> rfl
  · exact le_rfl

theorem leads_exponent {exponent : List Char} (h : Lexeme.IsExponent exponent) (s : Nesting) :
    s.settled.Leads exponent s.settled fun _ => True := by
  have hmark : ∀ {mark : Char}, mark = 'e' ∨ mark = 'E' →
      s.settled.Leads [mark] s.settled fun _ => True := by
    intro mark h
    apply leads_settled
    intro a ha
    obtain rfl := List.mem_singleton.mp ha
    rcases h with rfl | rfl <;> rfl
  cases h with
  | absent => exact leads_nil _
  | plain h _ hdigits =>
    exact (hmark h).before (leads_settled (fun a ha => Lexeme.isWord_of_isDigit (hdigits a ha)) s)
  | signed h hsign hne hdigits =>
    have hword := leads_word (fun a ha => Lexeme.isWord_of_isDigit (hdigits a ha)) hne
      { s.settled with expectsOperand := true }
    exact (hmark h).before ((leads_sign hsign s).before hword)

theorem leads_number {lexeme : List Char} (h : Lexeme.IsNumber lexeme) (s : Nesting) :
    s.Leads lexeme s.settled fun _ => True := by
  cases h with
  | whole hne hdigits hexponent =>
    have hword := leads_word (fun a ha => Lexeme.isWord_of_isDigit (hdigits a ha)) hne s
    exact hword.before (leads_exponent hexponent s)
  | @pointed whole fraction exponent _ hwhole hfraction hexponent =>
    have hword : ∀ a ∈ whole ++ '.' :: fraction, Lexeme.isWord a = true := by
      intro a ha
      rcases List.mem_append.mp ha with ha | ha
      · exact Lexeme.isWord_of_isDigit (hwhole a ha)
      · rcases List.mem_cons.mp ha with rfl | ha
        · rfl
        · exact Lexeme.isWord_of_isDigit (hfraction a ha)
    exact (leads_word hword (by simp) s).before (leads_exponent hexponent s)

theorem leads_name {text lexeme rest : List Char}
    (h : Lexeme.identifier? text = some (lexeme, rest)) (s : Nesting) :
    s.Leads lexeme s.settled fun _ => True := by
  obtain ⟨-, a, more, rfl, hstart, hmore⟩ := Lexeme.identifier?_eq_some h
  apply leads_word
  · intro b hb
    rcases List.mem_cons.mp hb with rfl | hb
    · exact Lexeme.isWord_of_isNameStart hstart
    · exact Lexeme.isWord_of_isNamePart (hmore b hb)
  · intro h
    cases h

/-- Every character of a symbol before an operand is a level. -/
theorem leads_unary (op : UnaryOperator) (opened : List Nat) (enclosing pending : Nat) :
    Leads ⟨opened, enclosing, pending, true⟩ op.symbol.text
      ⟨opened, enclosing, pending + op.symbol.text.length, true⟩
      fun limit => enclosing + (pending + op.symbol.text.length) ≤ limit := by
  have hsign : ∀ {a : Char} (pending : Nat), a = '+' ∨ a = '-' ∨ a = '!' →
      Leads ⟨opened, enclosing, pending, true⟩ [a] ⟨opened, enclosing, pending + 1, true⟩
        fun limit => enclosing + (pending + 1) ≤ limit := by
    intro a pending ha
    apply leads_singleton
    rcases ha with rfl | rfl | rfl <;> rfl
  have htwice : ∀ {a : Char}, a = '+' ∨ a = '-' ∨ a = '!' →
      Leads ⟨opened, enclosing, pending, true⟩ [a, a] ⟨opened, enclosing, pending + 2, true⟩
        fun limit => enclosing + (pending + 2) ≤ limit := by
    intro a ha
    refine ((hsign pending ha).trans (hsign (pending + 1) ha)).congr ?_
    intro limit _
    omega
  cases op with
  | plus => exact hsign pending (.inl rfl)
  | neg => exact hsign pending (.inr (.inl rfl))
  | increment => exact htwice (.inl rfl)
  | decrement => exact htwice (.inr (.inl rfl))
  | not => exact hsign pending (.inr (.inr rfl))

/-- A symbol between operands is no level. -/
theorem leads_binary (op : BinaryOperator) (s : Nesting) :
    s.settled.Leads op.symbol.text { s.settled with expectsOperand := true } fun _ => True := by
  have hother : ∀ {a : Char} (expects : Bool), a ∈ ['|', '&', '<', '>', '=', '*', '/'] →
      Leads { s.settled with expectsOperand := expects } [a]
        { s.settled with expectsOperand := true } fun _ => True := by
    intro a expects ha
    apply leads_of_depth_le
    · simp only [List.mem_cons, List.not_mem_nil, or_false] at ha
      rcases ha with rfl | rfl | rfl | rfl | rfl | rfl | rfl <;> rfl
    · exact le_rfl
  have htwo : ∀ {a b : Char}, a ∈ ['|', '&', '<', '>', '=', '*', '/'] →
      b ∈ ['|', '&', '<', '>', '=', '*', '/'] →
      s.settled.Leads [a, b] { s.settled with expectsOperand := true } fun _ => True :=
    fun ha hb => (hother false ha).before (hother true hb)
  cases op with
  | arithmetic op =>
    cases op with
    | add => exact leads_sign (.inl rfl) s
    | sub => exact leads_sign (.inr rfl) s
    | mul => exact hother false (by decide)
    | div => exact hother false (by decide)
  | comparison op =>
    cases op with
    | lt => exact hother false (by decide)
    | le => exact htwo (by decide) (by decide)
    | ge => exact htwo (by decide) (by decide)
    | gt => exact hother false (by decide)
  | bitAnd => exact hother false (by decide)
  | logical op =>
    cases op with
    | and => exact htwo (by decide) (by decide)
    | or => exact htwo (by decide) (by decide)

/-- Brackets take the signs before them along and give their levels back when they close. -/
theorem leads_enclosed {a : Char} (ha : a = '(' ∨ a = '[') (bracket : Bracket)
    (h : Leads ⟨(s.pending + 1) :: s.opened, s.enclosing + (s.pending + 1), 0, true⟩ text
      ⟨(s.pending + 1) :: s.opened, s.enclosing + (s.pending + 1), 0, false⟩ allows) :
    s.Leads ([a] ++ (text ++ [bracket.closing])) s.settled
      fun limit => s.enclosing + (s.pending + 1) ≤ limit ∧ allows limit := by
  have hopen := leads_singleton (step_open ha s)
  have hclose : Leads ⟨(s.pending + 1) :: s.opened, s.enclosing + (s.pending + 1), 0, false⟩
      [bracket.closing] s.settled fun _ => True := by
    apply leads_of_depth_le
    · rw [step_closing, Nat.add_sub_cancel]
      rfl
    · exact Nat.le_add_right _ _
  exact hopen.trans (h.behind hclose)

end leads

end Reckon.Nesting

namespace Reckon.Text

theorem length_le_byteLength (text : List Char) : text.length ≤ byteLength text := by
  induction text with
  | nil => exact Nat.le_refl 0
  | cons a text ih =>
    have hsize := a.utf8Size_pos
    rw [List.length_cons, byteLength]
    omega

end Reckon.Text
