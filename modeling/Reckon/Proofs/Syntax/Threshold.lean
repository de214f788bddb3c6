import Mathlib.Order.Bounds.Basic
import Reckon.Proofs.Grammar.Embedded
import Reckon.Proofs.Syntax.Acceptance

/-!
The nesting limit as a threshold. A text that is scanned without a limit has a
deepest level. A limit that this level is within changes nothing; any other
stops the scan at the first character behind which it is exceeded, and then it
is exceeded by one level. So a limit that does not stop a text may as well be
larger.
-/

namespace Reckon

namespace Nesting

variable {limit : Nat} {s : Nesting}

/-- The levels at the places of a text that is scanned without a limit. -/
def depths (s : Nesting) (text : List Char) : Set Nat :=
  {depth | ∃ pre, pre <+: text ∧ (s.after pre).depth = depth}

/-- The deepest of these levels. -/
def peak (s : Nesting) : List Char → Nat
  | [] => s.depth
  | a :: text => max s.depth (peak (s.step a) text)

theorem isGreatest_peak (s : Nesting) (text : List Char) :
    IsGreatest (s.depths text) (s.peak text) := by
  induction text generalizing s with
  | nil =>
    refine ⟨⟨[], List.prefix_rfl, rfl⟩, ?_⟩
    rintro depth ⟨pre, hpre, rfl⟩
    obtain rfl := List.prefix_nil.mp hpre
    exact le_rfl
  | cons a text ih =>
    obtain ⟨⟨deep, hdeep, hpeak⟩, hbound⟩ := ih (s.step a)
    constructor
    · rcases Nat.le_total (peak (s.step a) text) s.depth with hle | hle
      · exact ⟨[], List.nil_prefix, (Nat.max_eq_left hle).symm⟩
      · refine ⟨a :: deep, List.cons_prefix_cons.mpr ⟨rfl, hdeep⟩, ?_⟩
        rw [peak, Nat.max_eq_right hle]
        exact hpeak
    · rintro depth ⟨pre, hpre, rfl⟩
      cases pre with
      | nil => exact Nat.le_max_left _ _
      | cons b pre =>
        obtain ⟨rfl, htail⟩ := List.cons_prefix_cons.mp hpre
        exact (hbound ⟨pre, htail, rfl⟩).trans (Nat.le_max_right _ _)

theorem depth_le_peak (s : Nesting) (text : List Char) : s.depth ≤ s.peak text :=
  (isGreatest_peak s text).2 ⟨[], List.nil_prefix, rfl⟩

/-- Only an opening bracket or a sign makes a text deeper, and by one level. -/
theorem opens_of_depth_lt {a : Char} (h : s.depth < (s.step a).depth) :
    a ∈ ['(', '[', '+', '-', '!'] ∧ (s.step a).depth = s.depth + 1 := by
  refine ⟨?_, Nat.le_antisymm (s.depth_step_le a) h⟩
  by_contra hnone
  simp only [List.mem_cons, List.not_mem_nil, or_false, not_or] at hnone
  obtain ⟨hparen, hsquare, hplus, hminus, hnot⟩ := hnone
  apply Nat.not_le.mpr h
  unfold step depth
  rw [if_neg (by simp [hparen, hsquare])]
  split
  · cases s.opened with
    | nil => exact Nat.le_add_right _ _
    | cons levels outer =>
      simp only
      omega
  · rw [if_neg (by simp [hplus, hminus, hnot])]
    split
    · exact le_rfl
    · split
      · exact Nat.le_add_right _ _
      · exact le_rfl

/-- A text is never deeper than it is long. -/
theorem depth_after_le_length (s : Nesting) (text : List Char) :
    (s.after text).depth ≤ s.depth + text.length := by
  induction text generalizing s with
  | nil => exact le_rfl
  | cons a text ih =>
    have hrest := ih (s.step a)
    have hstep := s.depth_step_le a
    rw [List.length_cons]
    change ((s.step a).after text).depth ≤ _
    omega

/-- A closing bracket gives back what the bracket that it closes had taken. -/
theorem enclosing_step_closing {a : Char} {levels : Nat} {outer : List Nat} (h : s.Summed)
    (ha : a = ')' ∨ a = ']') (hopened : s.opened = levels :: outer) :
    (s.step a).enclosing + levels = s.enclosing := by
  have hlevels : levels ≤ s.enclosing := by
    rw [show s.enclosing = _ from h, hopened, List.foldr_cons]
    exact Nat.le_add_right _ _
  have hopen : ¬(a = '(' ∨ a = '[') := by
    rcases ha with rfl | rfl <;> decide
  rw [step, if_neg hopen, if_pos ha, hopened]
  exact Nat.sub_add_cancel hlevels

theorem scan_eq_ok {text : List Char} {deepest : Nat} (h : s.peak text ≤ limit)
    (hs : s.depth ≤ deepest) (offset : Nat) :
    scan limit s deepest offset text = .ok (max deepest (s.peak text)) := by
  induction text generalizing s deepest offset with
  | nil => rw [scan, peak, Nat.max_eq_left hs]
  | cons a text ih =>
    have hrest : (s.step a).peak text ≤ limit := (Nat.le_max_right _ _).trans h
    have hstep : ¬limit < (s.step a).depth :=
      Nat.not_lt.mpr (((s.step a).depth_le_peak text).trans hrest)
    rw [scan, if_neg hstep, ih hrest (Nat.le_max_right _ _), peak, ← Nat.max_assoc,
      Nat.max_eq_left hs, Nat.max_assoc, Nat.max_eq_right ((s.step a).depth_le_peak text)]

/-- A scan stops at the first character that exceeds the limit, one level beyond it. -/
theorem scan_eq_error {text : List Char} (hs : s.depth ≤ limit) (h : limit < s.peak text)
    (deepest offset : Nat) :
    ∃ pre a post, text = pre ++ a :: post ∧ Fits limit s pre ∧
      (s.after (pre ++ [a])).depth = limit + 1 ∧ a ∈ ['(', '[', '+', '-', '!'] ∧
      scan limit s deepest offset text =
        .error ⟨limit + 1, limit, offset + Text.byteLength pre, a⟩ := by
  induction text generalizing s deepest offset with
  | nil => exact absurd hs (Nat.not_le.mpr h)
  | cons a text ih =>
    by_cases hlimit : limit < (s.step a).depth
    · obtain ⟨ha, hdepth⟩ := opens_of_depth_lt (Nat.lt_of_le_of_lt hs hlimit)
      have hexcess : (s.step a).depth = limit + 1 := by omega
      refine ⟨[], a, text, rfl, trivial, hexcess, ha, ?_⟩
      rw [scan, if_pos hlimit, hexcess]
      rfl
    · have hstep : (s.step a).depth ≤ limit := Nat.le_of_not_lt hlimit
      have hrest : limit < (s.step a).peak text := by
        rw [peak] at h
        omega
      obtain ⟨pre, b, post, rfl, hfits, hdepth, hb, hscan⟩ :=
        ih hstep hrest (max deepest (s.step a).depth) (offset + a.utf8Size)
      refine ⟨a :: pre, b, post, rfl, ⟨hstep, hfits⟩, hdepth, hb, ?_⟩
      rw [scan, if_neg hlimit, hscan, Text.byteLength, Nat.add_assoc]

theorem deepest_eq_error {source : List Char} (h : limit < start.peak source) :
    ∃ pre a post, source = pre ++ a :: post ∧ Fits limit start pre ∧
      (start.after (pre ++ [a])).depth = limit + 1 ∧ a ∈ ['(', '[', '+', '-', '!'] ∧
      deepest limit source = .error ⟨limit + 1, limit, Text.byteLength pre, a⟩ := by
  obtain ⟨pre, a, post, hsource, hfits, hdepth, ha, hscan⟩ :=
    scan_eq_error (Nat.zero_le limit) h 0 0
  rw [Nat.zero_add] at hscan
  exact ⟨pre, a, post, hsource, hfits, hdepth, ha, hscan⟩

theorem deepest_eq_ok_iff {source : List Char} :
    deepest limit source = .ok (start.peak source) ↔ start.peak source ≤ limit := by
  constructor
  · intro h
    by_contra hlimit
    obtain ⟨pre, a, post, -, -, -, -, herror⟩ := deepest_eq_error (Nat.lt_of_not_le hlimit)
    rw [herror] at h
    cases h
  · intro h
    rw [deepest, scan_eq_ok h (Nat.le_refl 0), Nat.max_eq_right (Nat.zero_le _)]

end Nesting

namespace SyntaxTree

variable {source : String} {limit limit' : Nat}

/-- A limit that does not stop a text may as well be larger. -/
theorem parse_eq_of_le (hle : limit ≤ limit')
    (h : ∀ depth bound span, parse source limit ≠ .error ⟨.tooDeep depth bound, span⟩) :
    parse source limit' = parse source limit := by
  have hpeak : Nesting.start.peak source.toList ≤ limit := by
    by_contra hlimit
    obtain ⟨pre, a, post, -, -, -, -, herror⟩ := Nesting.deepest_eq_error (Nat.lt_of_not_le hlimit)
    apply h
    rw [parse, herror]
    rfl
  rw [parse, parse, Nesting.deepest_eq_ok_iff.mpr hpeak,
    Nesting.deepest_eq_ok_iff.mpr (hpeak.trans hle)]

/-- The check of the nesting finds the deepest level of any text when the limit reaches it, and
otherwise fails one level beyond the limit, at the first character that exceeds it. On the way
the levels that enclose a place are those of the open brackets, a closing bracket gives back no
more than there is, and no place is deeper than the text before it is long. A limit that does
not stop a text is as good as any larger one. -/
theorem nesting_threshold (source : String) :
    (∃ deepest, IsGreatest (Nesting.start.depths source.toList) deepest ∧ ∀ limit,
      (Nesting.deepest limit source.toList = .ok deepest ↔ deepest ≤ limit) ∧
      (limit < deepest → ∃ pre a post, source.toList = pre ++ a :: post ∧
        (∀ before, before <+: pre → (Nesting.start.after before).depth ≤ limit) ∧
        (Nesting.start.after (pre ++ [a])).depth = limit + 1 ∧ a ∈ ['(', '[', '+', '-', '!'] ∧
        Nesting.deepest limit source.toList =
          .error ⟨limit + 1, limit, Text.byteLength pre, a⟩ ∧
        parse source limit = .error ⟨.tooDeep (limit + 1) limit,
          ⟨Text.byteLength pre, Text.byteLength pre + a.utf8Size⟩⟩)) ∧
    (∀ pre, pre <+: source.toList →
      (Nesting.start.after pre).Summed ∧ (Nesting.start.after pre).depth ≤ pre.length ∧
      ∀ a levels outer, a = ')' ∨ a = ']' → (Nesting.start.after pre).opened = levels :: outer →
        ((Nesting.start.after pre).step a).enclosing + levels =
          (Nesting.start.after pre).enclosing) ∧
    ∀ limit limit', limit ≤ limit' →
      (∀ depth bound span, parse source limit ≠ .error ⟨.tooDeep depth bound, span⟩) →
        parse source limit' = parse source limit := by
  refine ⟨⟨_, Nesting.isGreatest_peak _ _, ?_⟩, ?_, fun _ _ => parse_eq_of_le⟩
  · intro limit
    refine ⟨Nesting.deepest_eq_ok_iff, ?_⟩
    intro hlimit
    obtain ⟨pre, a, post, hsource, hfits, hdepth, ha, herror⟩ := Nesting.deepest_eq_error hlimit
    refine ⟨pre, a, post, hsource, ?_, hdepth, ha, herror, ?_⟩
    · rintro before ⟨after, rfl⟩
      exact Nesting.depth_after_le (Nesting.fits_append.mp hfits).1 (Nat.zero_le limit)
    · rw [parse, herror]
      rfl
  · intro pre _
    have hstart : Nesting.start.Summed := rfl
    have hsummed := hstart.after pre
    refine ⟨hsummed, ?_, fun a levels outer ha => Nesting.enclosing_step_closing hsummed ha⟩
    simpa [Nesting.depth, Nesting.start] using Nesting.start.depth_after_le_length pre

/-- A bracket that closes nothing, and signs behind a letter outside of the grammar: a limit of
three levels is enough to find what is wrong, and one of seven finds the same. -/
theorem parse_eq_beyond_threshold :
    (∃ expected found, parse "é](-!" 3 = .error ⟨.unexpected expected found, ⟨0, 0⟩⟩) ∧
      parse "é](-!" 7 = parse "é](-!" 3 := by
  have hcheck : (match parse "é](-!" 3 with
      | .error ⟨.unexpected _ _, span⟩ => decide (span = ⟨0, 0⟩)
      | _ => false) = true := by decide +kernel
  obtain ⟨expected, found, herror⟩ :
      ∃ expected found, parse "é](-!" 3 = .error ⟨.unexpected expected found, ⟨0, 0⟩⟩ := by
    split at hcheck
    · next expected found span herror =>
      obtain rfl := of_decide_eq_true hcheck
      exact ⟨expected, found, herror⟩
    · cases hcheck
  refine ⟨⟨expected, found, herror⟩, (nesting_threshold "é](-!").2.2 3 7 (by decide) ?_⟩
  intro depth bound span htooDeep
  rw [herror] at htooDeep
  cases htooDeep

end SyntaxTree

end Reckon
