import Reckon.Proofs.Evaluation.Blame
import Reckon.Proofs.Evaluation.Tokens

/-!
Failures that their spans reproduce. The text at the span of a failure, taken
as a source of its own, fails again for the same cause, or has a value of the
type that was found where another was needed. The text is cut out of its
source with the layout behind it, and is read and nests as it did there.
-/

namespace Reckon

open Grammar ParseTree

namespace Grammar

/-- A derived stretch is read through on its own. -/
theorem Derives.readsThrough {p : Part} {c stop : Cursor} {tree : ParseTree} {text : List Char}
    (h : Derives p c [tree] stop) (hp : p.expecting = .operand) (htext : c.Passes text stop) :
    ∃ tokens, ReadsThrough text tokens ∧ lexemesOf tokens = tree.texts := by
  obtain ⟨d, ⟨layout, hlayout, hrest, -⟩, hreaches⟩ := h.reaches []
  obtain ⟨text', htext', hcut⟩ := hreaches.laid.cut hrest
  obtain rfl : text = text' := List.append_cancel_right (htext.1.symm.trans htext')
  have hrespaced := hcut []
  simp only [List.append_nil] at hrespaced
  replace hrespaced : Respaced d.rest layout _ c.rest (Cursor.start text).rest := hrespaced
  obtain ⟨tokens, d', hreaches', htokens, rfl⟩ := hreaches.respaced hrespaced (.of_layout hlayout)
  rw [hp] at hreaches'
  refine ⟨tokens, ⟨d', hreaches', hlayout⟩, ?_⟩
  rw [htokens, ParseTree.lexemesOf_leavesOf]
  simp

/-- Some tiers with no rounds of looser tiers behind them are tiers again, with the same result. -/
theorem Derives.widen {ts : List Tier} {c stop : Cursor} {tree : ParseTree}
    (h : Derives (.tiers ts) c [tree] stop) (looser : List Tier) :
    ∃ tree' stop', Derives (.tiers (looser ++ ts)) c [tree'] stop' ∧ tree'.texts = tree.texts ∧
      ∀ env r, tree.Gives env r → tree'.Gives env r := by
  induction looser with
  | nil => exact ⟨tree, stop, h, rfl, fun _ _ => id⟩
  | cons t looser ih =>
    obtain ⟨tree', stop', hderives, htexts, hgives⟩ := ih
    exact ⟨_, _, .tier hderives (.done _), by simpa using htexts, fun env r hr =>
      gives_tier_nil (hgives env r hr)⟩

/-- Whatever a scan reads as an operand is an expression, with the same result. -/
theorem Derives.exists_expression {p : Part} {c stop : Cursor} {tree : ParseTree}
    (h : Derives p c [tree] stop) (hp : p.expecting = .operand) (hreach : p.reach <:+ Tier.all) :
    ∃ tree' stop', Derives .expression c [tree'] stop' ∧ tree'.texts = tree.texts ∧
      ∀ env r, tree.Gives env r → tree'.Gives env r := by
  have htiers : ∀ {ts : List Tier}, Derives (.tiers ts) c [tree] stop → ts <:+ Tier.all →
      ∃ tree' stop', Derives .expression c [tree'] stop' ∧ tree'.texts = tree.texts ∧
        ∀ env r, tree.Gives env r → tree'.Gives env r := by
    rintro ts htiers ⟨looser, hall⟩
    obtain ⟨tree', stop', hderives, htexts, hgives⟩ := htiers.widen looser
    rw [hall] at hderives
    exact ⟨_, stop', .expression hderives, by simpa using htexts, fun env r hr =>
      gives_single (.inl rfl) (hgives env r hr)⟩
  cases p with
  | operand => exact htiers (.bare h) hreach
  | tiers ts => exact htiers h hreach
  | rounds t tighter => cases hp
  | expression => exact ⟨tree, stop, h, rfl, fun _ _ => id⟩

end Grammar

/-- A text with the tokens of an expression has its value, or fails for the same cause. -/
theorem SyntaxTree.IsOf.mapError_evaluate_eq {t : SyntaxTree} {tree tree' : ParseTree}
    {source : String} {c stop : Cursor} (h : t.IsOf tree source)
    (h' : Derives .expression c [tree'] stop) (htexts : tree.texts = tree'.texts)
    {env : Environment} {r : Except EvaluationError Value}
    (hgives : tree'.Gives env.withTruthValues r) :
    (Evaluation.evaluate t env).mapError EvaluationError.cause =
      r.mapError EvaluationError.cause := by
  obtain ⟨stop', hderives, -⟩ := h.derives
  have hbare := hderives.bare_eq h' htexts
  rw [h.evaluate_eq, ← hgives.evaluate_eq]
  exact Unfolded.evaluate_congr env (by rw [← unfolded_bare, ← unfolded_bare, hbare])

/-- A derived stretch that nests within a limit is read on its own, with the result of its tree. -/
theorem Grammar.Derives.exists_parse {p : Part} {c stop : Cursor} {tree : ParseTree}
    {text : List Char} {limit : Nat} {env : Environment} {r : Except EvaluationError Value}
    (h : Derives p c [tree] stop) (hp : p.expecting = .operand) (hreach : p.reach <:+ Tier.all)
    (hpass : c.Passes text stop) (hgives : tree.Gives env.withTruthValues r)
    (hfits : Nesting.Fits limit .start text) :
    ∃ t, SyntaxTree.parse (String.ofList text) limit = .ok t ∧ t.source = String.ofList text ∧
      (Evaluation.evaluate t env).mapError EvaluationError.cause =
        r.mapError EvaluationError.cause := by
  obtain ⟨tokens, hreads, htokens⟩ := h.readsThrough hp hpass
  obtain ⟨tree', stop', hexpression, htexts, hgives'⟩ := h.exists_expression hp hreach
  rw [← String.toList_ofList (l := text)] at hreads hfits
  obtain ⟨nesting, hnesting⟩ := Nesting.exists_deepest_eq_ok_iff.mpr hfits
  obtain ⟨t, found, ht, hof, hfound⟩ := SyntaxTree.parse_of_readsThrough hreads hnesting
  refine ⟨t, ht, hof.source_eq, ?_⟩
  exact hof.mapError_evaluate_eq hexpression (by rw [hfound, htokens, htexts])
    (hgives' _ _ hgives)

/-- A sample that nests within a limit is read, and its evaluation shows the cause. -/
theorem Sample.shown {env : Environment} {cause : EvaluationCause} {text : List Char}
    {limit : Nat} (h : Sample env.withTruthValues cause text)
    (hfits : Nesting.Fits limit .start text) :
    ∃ t, SyntaxTree.parse (String.ofList text) limit = .ok t ∧ t.source = String.ofList text ∧
      cause.ShownBy ((Evaluation.evaluate t env).mapError EvaluationError.cause) := by
  obtain ⟨p, c, tree, stop, r, hderives, hp, hreach, hpass, hgives, hshown⟩ := h
  obtain ⟨t, ht, hsource, hresult⟩ := hderives.exists_parse hp hreach hpass hgives hfits
  rw [← hresult] at hshown
  exact ⟨t, ht, hsource, hshown⟩

namespace Source

/-- What evaluation of a text has to give to reproduce a failure: the cause again, or for a value
of the wrong type in an index a value of this type. -/
def Reproduces (env : Environment) (limit : Nat) (source : String) : EvaluationCause → Prop
  | .indexNotInteger found => ∃ v, evaluate source env limit = .ok v ∧ v.type = found
  | .notAnArray found => ∃ v, evaluate source env limit = .ok v ∧ v.type = found
  | cause => ∃ span, evaluate source env limit = .error (.evaluation ⟨cause, span⟩ source)

theorem reproduces_of_shownBy {env : Environment} {limit : Nat} {source : String}
    {cause : EvaluationCause} {t : SyntaxTree} (ht : SyntaxTree.parse source limit = .ok t)
    (hsource : t.source = source)
    (h : cause.ShownBy ((Evaluation.evaluate t env).mapError EvaluationError.cause)) :
    Reproduces env limit source cause := by
  cases cause with
  | indexNotInteger found | notAnArray found =>
    obtain ⟨v, hv, htype⟩ := h
    cases hresult : Evaluation.evaluate t env with
    | error failure =>
      rw [hresult] at hv
      cases hv
    | ok v' =>
      rw [hresult] at hv
      cases hv
      exact ⟨v, by simp only [evaluate, parse, ht, evaluateTree, hresult], htype⟩
  | _ =>
    cases hresult : Evaluation.evaluate t env with
    | ok v =>
      rw [hresult] at h
      cases h
    | error failure =>
      obtain ⟨cause, span⟩ := failure
      rw [hresult] at h
      cases h
      exact ⟨span, by simp only [evaluate, parse, ht, evaluateTree, hresult, hsource]⟩

/-- The span of a failure of evaluation cuts a text out of the source at boundaries of characters,
and evaluation of this text reproduces the failure. -/
theorem evaluate_span_reproduces {source text : String} {env : Environment} {limit : Nat}
    {failure : EvaluationError}
    (h : evaluate source env limit = .error (.evaluation failure text)) :
    text = source ∧ ∃ part, failure.span.text? source.toList = some part ∧
      Reproduces env limit (String.ofList part) failure.cause := by
  cases ht : SyntaxTree.parse source limit with
  | error error => simp [evaluate, parse, ht] at h
  | ok t =>
    obtain ⟨tree, hof⟩ := SyntaxTree.isOf_of_parse ht
    obtain ⟨stop, hderives, -⟩ := hof.derives
    obtain ⟨tree', r, heq, hgives, hblames⟩ :=
      hderives.traced List.suffix_rfl env.withTruthValues
    obtain rfl := List.singleton_inj.mp heq
    have hresult : Evaluation.evaluate t env = r := by rw [hof.evaluate_eq, hgives.evaluate_eq]
    cases r with
    | ok v => simp [evaluate, parse, ht, evaluateTree, hresult] at h
    | error failure' =>
      simp only [evaluate, parse, ht, evaluateTree, hresult, hof.source_eq, Except.error.injEq,
        Failure.evaluation.injEq] at h
      obtain ⟨rfl, rfl⟩ := h
      refine ⟨rfl, ?_⟩
      obtain ⟨tokens, opened, d, c, part, rest, hreaches, hlayout, hrest, hspan, hsample⟩ :=
        (hblames [] _ rfl).before_layout (Cursor.passesLayout_skipLayout _)
      replace hreaches : Reaches (.start source.toList) tokens ⟨.operand, opened, d⟩ := hreaches
      have hfits : Nesting.Fits limit .start part :=
        hreaches.fits hlayout hrest (Nesting.exists_deepest_eq_ok_iff.mp
          (SyntaxTree.exists_deepest_of_parse ht))
      obtain ⟨t', ht', hsource', hshown⟩ := hsample.shown hfits
      refine ⟨part, ?_, reproduces_of_shownBy ht' hsource' hshown⟩
      obtain ⟨layout, -, hgap⟩ := hlayout
      obtain ⟨before, hbefore, -⟩ := hreaches.waits (n := .start) rfl
      obtain ⟨hwhole, hoffset⟩ := hbefore.trans hgap
      replace hwhole : source.toList = (before ++ layout) ++ (part ++ rest) := by
        rw [← hrest]
        exact hwhole
      replace hoffset : c.offset = Text.byteLength (before ++ layout) := by
        rw [hoffset]
        exact Nat.zero_add _
      rw [hspan, hoffset, hwhole, Span.text?_eq_some]

private theorem evaluate_difference :
    evaluate "(1 - true + 2)" .empty 1 = .error (.evaluation
      ⟨.operandMismatch "-" .integer .boolean, ⟨1, 10⟩⟩ "(1 - true + 2)") := by
  have hcheck : (match evaluate "(1 - true + 2)" .empty 1 with
      | .error (.evaluation failure text) =>
        decide (failure = ⟨.operandMismatch "-" .integer .boolean, ⟨1, 10⟩⟩ ∧
          text = "(1 - true + 2)")
      | _ => false) = true := by decide +kernel
  cases h : evaluate "(1 - true + 2)" .empty 1 with
  | ok v =>
    rw [h] at hcheck
    cases hcheck
  | error failure =>
    rw [h] at hcheck
    cases failure with
    | evaluation failure text =>
      obtain ⟨rfl, rfl⟩ := of_decide_eq_true hcheck
      rfl
    | _ => cases hcheck

/-- A difference that cannot be formed is cut out of its brackets with the space behind it. -/
theorem reproduces_difference :
    Reproduces .empty 1 "1 - true " (.operandMismatch "-" .integer .boolean) := by
  obtain ⟨-, part, hpart, hreproduces⟩ := evaluate_span_reproduces evaluate_difference
  have htext : Span.text? ⟨1, 10⟩ "(1 - true + 2)".toList = some "1 - true ".toList := by rfl
  obtain rfl := Option.some.inj (hpart.symm.trans htext)
  exact hreproduces

end Source

end Reckon
