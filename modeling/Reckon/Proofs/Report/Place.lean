import Reckon.Proofs.Evaluation.Blame
import Reckon.Proofs.Report.Heading
import Reckon.Proofs.Syntax.Threshold
import Reckon.Proofs.Syntax.Tokens

/-!
Where reports point. A span counts bytes, and a report takes its start for a
number of characters. The two agree just where all characters before the span
are ASCII. What a scan has read is, so that a text outside of ASCII can stand
before a failure only if the nesting went too deep behind it: this is judged
before the text is read.
-/

namespace Reckon

open Grammar

namespace Text

/-- All characters take one byte each. -/
def IsAscii (text : List Char) : Prop := ∀ a ∈ text, a.toNat < 128

variable {text first second : List Char}

theorem isAscii_append : IsAscii (first ++ second) ↔ IsAscii first ∧ IsAscii second :=
  List.forall_mem_append

theorem utf8Size_eq_one_iff {a : Char} : a.utf8Size = 1 ↔ a.toNat < 128 := by
  rw [Char.utf8Size_eq_one_iff, UInt32.le_iff_toNat_le]
  exact Nat.lt_succ_iff.symm

/-- Bytes and characters count the same just in ASCII. -/
theorem byteLength_eq_length_iff : byteLength text = text.length ↔ IsAscii text := by
  induction text with
  | nil => exact iff_of_true rfl nofun
  | cons a text ih =>
    have hsize := a.utf8Size_pos
    have hle := length_le_byteLength text
    rw [IsAscii, List.forall_mem_cons, ← utf8Size_eq_one_iff, byteLength, List.length_cons]
    change _ ↔ _ ∧ IsAscii text
    rw [← ih]
    omega

theorem isAscii_of_isInk (h : ∀ a ∈ text, Lexeme.isInk a = true) : IsAscii text := by
  intro a ha
  have hcode := (Lexeme.toNat_of_isInk (h a ha)).2
  omega

theorem isAscii_of_isLayout (h : ∀ a ∈ text, isLayout a = true) : IsAscii text := by
  intro a ha
  have hlayout := h a ha
  simp only [isLayout, Bool.or_eq_true, decide_eq_true_eq] at hlayout
  rcases hlayout with ((rfl | rfl) | rfl) | rfl <;> decide

end Text

open Text

namespace Grammar

variable {source : List Char} {tokens : List Token} {c d : Cursor}

/-- Tokens with layout between them are ASCII. -/
theorem Laid.passes_isAscii (h : Laid c tokens d) : ∃ text, c.Passes text d ∧ IsAscii text := by
  induction h with
  | nil c => exact ⟨[], .refl c, nofun⟩
  | @cons c d stop r lexeme rest tokens hd htext hsolid _ ih =>
    subst hd
    obtain ⟨layout, hlayout, hpass⟩ := c.passes_skipLayout
    obtain ⟨more, hmore, hascii⟩ := ih
    refine ⟨_, (hpass.trans (Cursor.passes_after htext)).trans hmore, ?_⟩
    exact isAscii_append.mpr ⟨isAscii_append.mpr
      ⟨isAscii_of_isLayout hlayout, isAscii_of_isInk hsolid.2⟩, hascii⟩

/-- What a scan has read is ASCII, and so is the layout behind it. -/
theorem Reaches.isAscii_before {expecting : Expecting} {opened : List Bracket}
    (h : Reaches (.start source) tokens ⟨expecting, opened, c⟩) :
    ∃ before after, source = before ++ after ∧ c.skipLayout.offset = byteLength before ∧
      IsAscii before := by
  obtain ⟨text, hpass, htext⟩ := h.laid.passes_isAscii
  obtain ⟨layout, hlayout, hskip⟩ := c.passes_skipLayout
  obtain ⟨hsource, hoffset⟩ := hpass.trans hskip
  refine ⟨text ++ layout, c.skipLayout.rest, hsource, hoffset.trans (Nat.zero_add _), ?_⟩
  exact isAscii_append.mpr ⟨htext, isAscii_of_isLayout hlayout⟩

theorem Sticks.isAscii_before {place : Nat} {failed : List Rule}
    (h : Sticks (.start source) place failed) :
    ∃ before after, source = before ++ after ∧ place = byteLength before ∧ IsAscii before := by
  cases h with
  | operand hreaches _ => exact hreaches.isAscii_before
  | operator hreaches _ _ _ => exact hreaches.isAscii_before

theorem ReadsThrough.isAscii (h : ReadsThrough source tokens) : IsAscii source := by
  obtain ⟨d, hreaches, hlayout⟩ := h
  obtain ⟨text, ⟨hsource, -⟩, htext⟩ := hreaches.laid.passes_isAscii
  replace hsource : source = text ++ d.rest := hsource
  rw [hsource]
  exact isAscii_append.mpr ⟨htext, isAscii_of_isLayout hlayout⟩

end Grammar

/-- A span is cut out of a source, and all up to its end is ASCII, unless the nesting is too deep at
its one byte. -/
def Span.CutsOut (span : Span) (source : List Char) (tooDeep : Prop) : Prop :=
  ∃ before part after, source = before ++ (part ++ after) ∧
    span = ⟨byteLength before, byteLength before + byteLength part⟩ ∧
    (IsAscii (before ++ part) ∨ tooDeep ∧ byteLength part = 1)

theorem SyntaxTree.span_of_parse_eq_error {source : String} {limit : Nat} {error : SyntaxError}
    (h : parse source limit = .error error) :
    error.span.CutsOut source.toList (∃ depth bound, error.cause = .tooDeep depth bound) := by
  by_cases hlimit : limit < Nesting.start.peak source.toList
  · obtain ⟨pre, a, post, hsource, -, -, ha, hdeepest⟩ := Nesting.deepest_eq_error hlimit
    have hink : ['(', '[', '+', '-', '!'].all Lexeme.isInk = true := by decide
    have hsize : a.utf8Size = 1 :=
      utf8Size_eq_one_iff.mpr (isAscii_of_isInk (List.all_eq_true.mp hink) a ha)
    have hpart : byteLength [a] = a.utf8Size := rfl
    simp only [parse, hdeepest, Except.error.injEq] at h
    subst h
    refine ⟨pre, [a], post, hsource, ?_, .inr ⟨⟨_, _, rfl⟩, by rw [hpart, hsize]⟩⟩
    rw [hpart]
    rfl
  · have hdeepest := Nesting.deepest_eq_ok_iff.mpr (Nat.not_lt.mp hlimit)
    rcases parse_or_sticks hdeepest with ⟨t, tree, ht, -⟩ | ⟨found, place, failed, hparse, hsticks⟩
    · rw [h] at ht
      cases ht
    · rw [h] at hparse
      obtain rfl := Except.error.inj hparse
      obtain ⟨before, after, hsource, rfl, hascii⟩ := hsticks.isAscii_before
      exact ⟨before, [], after, hsource, rfl, .inl (by rwa [List.append_nil])⟩

theorem SyntaxTree.IsOf.span_of_evaluate_eq_error {t : SyntaxTree} {tree : ParseTree}
    {source : String} {env : Environment} {failure : EvaluationError} (h : t.IsOf tree source)
    (hfailure : tree.unfolded.evaluate env = .error failure) :
    failure.span.CutsOut source.toList False := by
  obtain ⟨before, part, after, hsource, hspan⟩ := (h.blames hfailure).exists_span_eq
  have hascii := h.readsThrough.isAscii
  rw [hsource, isAscii_append, isAscii_append] at hascii
  exact ⟨before, part, after, hsource, hspan, .inl (isAscii_append.mpr ⟨hascii.1, hascii.2.1⟩)⟩

theorem Span.CutsOut.imp {span : Span} {source : List Char} {tooDeep tooDeep' : Prop}
    (h : span.CutsOut source tooDeep) (himp : tooDeep → tooDeep') :
    span.CutsOut source tooDeep' := by
  obtain ⟨before, part, after, hsource, hspan, hascii⟩ := h
  exact ⟨before, part, after, hsource, hspan, hascii.imp_right fun hdeep => ⟨himp hdeep.1, hdeep.2⟩⟩

/-- A failure is about the source, and its span is cut out of the source. -/
theorem Source.span_of_evaluate_eq_error {source : String} {env : Environment} {limit : Nat}
    {failure : Failure} (h : evaluate source env limit = .error failure) :
    failure.source? = some source ∧ failure.diagnostic.span.CutsOut source.toList
      (∃ depth bound span, failure = .parse ⟨.tooDeep depth bound, span⟩ source) := by
  rcases parse_fails_or_evaluates source env limit with ⟨error, hparse, heq⟩ |
    ⟨t, tree, -, hof, heq⟩
  · obtain rfl := Except.error.inj (h.symm.trans heq)
    refine ⟨rfl, (SyntaxTree.span_of_parse_eq_error hparse).imp ?_⟩
    rintro ⟨depth, bound, hcause⟩
    obtain ⟨cause, span⟩ := error
    exact ⟨depth, bound, span, by rw [← hcause]⟩
  · cases hresult : tree.unfolded.evaluate env with
    | ok v =>
      rw [h, hresult] at heq
      cases heq
    | error error =>
      rw [h, hresult] at heq
      obtain rfl := Except.error.inj heq
      exact ⟨rfl, (hof.span_of_evaluate_eq_error hresult).imp False.elim⟩

namespace Report

variable {source : String} {env : Environment} {limit : Nat} {failure : Failure}

/-- The report on a failure names the line and the column of the character whose number is the
first byte of the span, or none if there is no such character. This is the character at the span
if and only if all text before it is ASCII, as it is for every failure but too much nesting. -/
theorem places_character_iff (h : Source.evaluate source env limit = .error failure) :
    ∃ before after, source.toList = before ++ after ∧
      failure.diagnostic.span.start = byteLength before ∧
      (∀ line column, Places failure line column ↔ ∃ first,
        SourceLine.holding? source.toList (byteLength before) = some first ∧
          line = first.index + 1 ∧ column = byteLength before - first.start + 1) ∧
      (∃ line, SourceLine.holding? source.toList before.length = some line ∧
        (Places failure (line.index + 1) (before.length - line.start + 1) ↔ IsAscii before)) ∧
      ((∀ depth bound span, failure ≠ .parse ⟨.tooDeep depth bound, span⟩ source) →
        IsAscii before) := by
  obtain ⟨hfailure, before, part, after, hsource, hspan, hcases⟩ :=
    Source.span_of_evaluate_eq_error h
  have hstart : failure.diagnostic.span.start = byteLength before := by rw [hspan]
  have hstop : failure.diagnostic.span.stop ≤ failure.diagnostic.span.start + 1 ∨
      failure.diagnostic.span.stop ≤ source.toList.length := by
    rw [hspan]
    rcases hcases with hascii | ⟨-, hpart⟩
    · have hlength := byteLength_eq_length_iff.mpr hascii
      rw [byteLength_append] at hlength
      have hwithin : (before ++ part).length ≤ source.toList.length := by
        rw [hsource, ← List.append_assoc]
        exact (List.prefix_append (before ++ part) after).length_le
      exact .inr (hlength.trans_le hwithin)
    · exact .inl (by rw [hpart])
  have hplaces : ∀ line column, Places failure line column ↔ ∃ first,
      SourceLine.holding? source.toList (byteLength before) = some first ∧
        line = first.index + 1 ∧ column = byteLength before - first.start + 1 := by
    intro line column
    rw [places_iff hfailure hstop, hstart]
  obtain ⟨line, hline⟩ : ∃ line, SourceLine.holding? source.toList before.length = some line := by
    rw [SourceLine.exists_holding?_iff, hsource, List.length_append]
    exact Nat.le_add_right _ _
  refine ⟨before, part ++ after, hsource, hstart, hplaces, ⟨line, hline, ?_⟩, ?_⟩
  · rw [hplaces, ← byteLength_eq_length_iff]
    constructor
    · rintro ⟨first, hfirst, hindex, hcolumn⟩
      exact SourceLine.offset_eq_of_holding? hfirst hline (Nat.succ_injective hindex).symm
        (Nat.succ_injective hcolumn).symm
    · intro hlength
      exact ⟨line, by rw [hlength, hline], rfl, by rw [hlength]⟩
  · intro hother
    rcases hcases with hascii | ⟨⟨depth, bound, span, hdeep⟩, -⟩
    · exact (isAscii_append.mp hascii).1
    · exact absurd hdeep (hother depth bound span)

private theorem evaluate_second_line : Source.evaluate "1 +\n b" .empty 0 =
    .error (.evaluation ⟨.undefinedVariable "b", ⟨5, 6⟩⟩ "1 +\n b") := by
  have hcheck : (match Source.evaluate "1 +\n b" .empty 0 with
      | .error (.evaluation error text) =>
        decide (error = ⟨.undefinedVariable "b", ⟨5, 6⟩⟩ ∧ text = "1 +\n b")
      | _ => false) = true := by decide +kernel
  split at hcheck
  · next herror =>
    obtain ⟨rfl, rfl⟩ := of_decide_eq_true hcheck
    exact herror
  · cases hcheck

/-- A name that is not bound, in the second column of the second line. -/
theorem places_second_line :
    Source.evaluate "1 +\n b" .empty 0 =
        .error (.evaluation ⟨.undefinedVariable "b", ⟨5, 6⟩⟩ "1 +\n b") ∧
      Places (.evaluation ⟨.undefinedVariable "b", ⟨5, 6⟩⟩ "1 +\n b") 2 2 := by
  refine ⟨evaluate_second_line, ?_⟩
  obtain ⟨before, after, -, hstart, hplaces, -⟩ := places_character_iff evaluate_second_line
  have hlength : byteLength before = 5 := hstart.symm
  rw [hplaces, hlength]
  exact ⟨⟨1, 4, [' ', 'b']⟩, rfl, rfl, rfl⟩

/-- A bracket too deep behind a letter of two bytes is placed in the third column, not the
second. -/
theorem not_places_character :
    ¬∀ (source : String) (env : Environment) (limit : Nat) (failure : Failure)
      (before after : List Char) (line : SourceLine),
      Source.evaluate source env limit = .error failure → source.toList = before ++ after →
      failure.diagnostic.span.start = byteLength before →
      SourceLine.holding? source.toList before.length = some line →
        Places failure (line.index + 1) (before.length - line.start + 1) := by
  intro hall
  let failure : Failure := .parse ⟨.tooDeep 1 0, ⟨2, 3⟩⟩ "é("
  have hplaces : Places failure 1 2 :=
    hall "é(" .empty 0 failure ['é'] ['('] ⟨0, 0, ['é', '(']⟩ rfl rfl rfl rfl
  have hsource : failure.source? = some "é(" := rfl
  have hstop : failure.diagnostic.span.stop ≤ failure.diagnostic.span.start + 1 := Nat.le_refl 3
  obtain ⟨first, hfirst, -, hcolumn⟩ := (places_iff hsource (.inl hstop)).mp hplaces
  have hline : SourceLine.holding? "é(".toList 2 = some ⟨0, 0, ['é', '(']⟩ := rfl
  obtain rfl := Option.some.inj (hfirst.symm.trans hline)
  cases hcolumn

end Report

end Reckon
