import Reckon.Proofs.Evaluation.Results
import Reckon.Proofs.Grammar.Embedded

/-!
Where the failures of an evaluation come from. Every failure is blamed on a
stretch of the text where a scan waits for an operand, and this stretch, taken
as an expression of its own, shows the cause again. For a tier it reaches from
the first operand to the one at fault, so the rounds behind that are left off.
-/

namespace Reckon

open Grammar ParseTree

/-- What the cause of a failure leaves to see in a part of the text: itself, or a value of the
type that was found where another was needed. -/
def EvaluationCause.ShownBy (cause : EvaluationCause) (r : Except EvaluationCause Value) : Prop :=
  match cause with
  | indexNotInteger found => ∃ v, r = .ok v ∧ v.type = found
  | notAnArray found => ∃ v, r = .ok v ∧ v.type = found
  | cause => r = .error cause

/-- A text is an expression that shows a cause, whatever follows it. -/
def Sample (env : Environment) (cause : EvaluationCause) (text : List Char) : Prop :=
  ∃ p c tree stop r, Derives p c [tree] stop ∧ p.expecting = .operand ∧ p.reach <:+ Tier.all ∧
    c.Passes text stop ∧ tree.Gives env r ∧ cause.ShownBy (r.mapError EvaluationError.cause)

/-- A scan comes to a stretch of text that has the span of a failure and shows its cause. -/
def Blames (env : Environment) (s : Scanner) (failure : EvaluationError) : Prop :=
  ∃ tokens opened d c text rest, Reaches s tokens ⟨.operand, opened, d⟩ ∧ d.PassesLayout c ∧
    c.rest = text ++ rest ∧ failure.span = ⟨c.offset, c.offset + Text.byteLength text⟩ ∧
    Sample env failure.cause text

section blames

variable {env : Environment} {failure : EvaluationError} {c d stop : Cursor}
  {lexeme rest : List Char} {tree : ParseTree} {opened : List Bracket}

theorem Blames.behind {s s' : Scanner} {tokens : List Token} (h : Blames env s' failure)
    (hreaches : Reaches s tokens s') : Blames env s failure := by
  obtain ⟨more, opened, d, c, text, rest, hmore, hblamed⟩ := h
  exact ⟨tokens ++ more, opened, d, c, text, rest, hreaches.trans hmore, hblamed⟩

theorem Blames.before_layout {expecting : Expecting}
    (h : Blames env ⟨expecting, opened, c⟩ failure) (hd : d.PassesLayout c) :
    Blames env ⟨expecting, opened, d⟩ failure := by
  obtain ⟨tokens, opened', e, e', text, rest, hreaches, hlayout, hblamed⟩ := h
  cases hreaches with
  | refl => exact ⟨[], _, d, e', text, rest, .refl _, hd.trans hlayout, hblamed⟩
  | step hstep hmore =>
    exact ⟨_, opened', e, e', text, rest, .step (hstep.restart hd.skipLayout_eq) hmore, hlayout,
      hblamed⟩

/-- A failure is blamed on the stretch from here to the end of its span. -/
theorem blames_of_passes {text : List Char} (opened : List Bracket) (hpass : c.Passes text stop)
    (hspan : failure.span = ⟨c.offset, stop.offset⟩) (hsample : Sample env failure.cause text) :
    Blames env ⟨.operand, opened, c⟩ failure := by
  obtain ⟨hrest, hoffset⟩ := hpass
  exact ⟨[], opened, c, c, text, stop.rest, .refl _, .refl c, hrest, by rw [hspan, hoffset],
    hsample⟩

/-- A failure with the span of the tree that it arises in is blamed on the text of the tree. -/
theorem Grammar.Derives.blames {p : Part} (h : Derives p c [tree] stop)
    (hp : p.expecting = .operand) (hreach : p.reach <:+ Tier.all)
    {r : Except EvaluationError Value} (hgives : tree.Gives env r)
    (hshown : failure.cause.ShownBy (r.mapError EvaluationError.cause))
    (hspan : failure.span = ⟨c.offset, stop.offset⟩) (opened : List Bracket) :
    Blames env ⟨.operand, opened, c⟩ failure := by
  obtain ⟨text, hpass, -⟩ := h.passes
  exact blames_of_passes opened hpass hspan
    ⟨p, c, tree, stop, r, h, hp, hreach, hpass, hgives, hshown⟩

/-- A name shows what it is bound to, or that it is not. -/
theorem sample_name {text : List Char} (h : Lexeme.identifier? text = some (lexeme, rest))
    {cause : EvaluationCause}
    (hshown : cause.ShownBy (match env.get? (String.ofList lexeme) with
      | some v => .ok v
      | none => .error (.undefinedVariable (String.ofList lexeme)))) :
    Sample env cause lexeme := by
  have hname := Lexeme.identifier?_self h
  refine ⟨.operand, .start lexeme, _, _, _, .name hname nofun, rfl, List.nil_suffix,
    Cursor.passes_after (by simp [Cursor.start]), gives_name env _ lexeme [], ?_⟩
  simp only [Cursor.leafValue, Valued.required]
  cases hvalue : env.get? (String.ofList lexeme) with
  | none =>
    rw [hvalue] at hshown
    exact hshown
  | some v =>
    rw [hvalue] at hshown
    exact hshown

theorem blames_undefined (h : Lexeme.identifier? c.rest = some (lexeme, rest))
    (hnone : env.get? (String.ofList lexeme) = none) (opened : List Bracket) :
    Blames env ⟨.operand, opened, c⟩ (c.leafValue env .identifier lexeme rest).tree.valueless := by
  refine blames_of_passes opened (Cursor.passes_after (Lexeme.identifier?_eq_some h).1) rfl
    (sample_name h ?_)
  rw [hnone]
  rfl

end blames

theorem Value.shownBy_of_binary {left right : Value} {symbol : String} {cause : EvaluationCause}
    (h : left.binary symbol right = .error cause) : cause.ShownBy (.error cause) := by
  rcases Value.cause_of_binary h with rfl | rfl <;> rfl

theorem Value.shownBy_of_unary {operand : Value} {symbol : String} {cause : EvaluationCause}
    (h : operand.unary symbol = .error cause) : cause.ShownBy (.error cause) := by
  rw [Value.cause_of_unary h]
  rfl

theorem ParseTree.span_unfolded (tree : ParseTree) : tree.unfolded.span = tree.span := by
  cases tree with
  | leaf rule span text => rfl
  | branch rule span children =>
    rw [unfolded]
    split <;> rfl

/-- The tree of an operand or of tiers spans all that is derived. -/
theorem Grammar.Derives.span_eq {p : Part} {c stop : Cursor} {tree : ParseTree}
    (h : Derives p c [tree] stop) (hp : p.expecting = .operand) :
    tree.unfolded.span = ⟨c.offset, stop.offset⟩ := by
  rw [tree.span_unfolded]
  generalize htrees : [tree] = trees at h
  induction h with
  | bare _ ih => exact ih rfl htrees
  | done => cases hp
  | round => cases hp
  | _ =>
    cases htrees
    rfl

section indexed

variable {env : Environment} {failure : EvaluationError} {whole : Span} {base : Valued}
  {index : ParseTree} {v : Value}

/-- How the element of an array can be missed: the index is no integer, there is no array, or the
array has no such element. -/
theorem indexed_eq_error (h : Valued.indexed whole base (index.withValue v) = .error failure) :
    failure = ⟨.indexNotInteger v.type, index.unfolded.span⟩ ∨
      (base.value? = none ∧ failure = base.tree.valueless) ∨
      (∃ found, base.value? = some found ∧ failure = ⟨.notAnArray found.type, base.tree.span⟩) ∨
      ∃ position size, failure = ⟨.indexOutOfBounds position size, whole⟩ := by
  have hindex : (index.withValue v).required = .ok v := rfl
  rw [Valued.indexed, hindex] at h
  cases v with
  | integer position =>
    cases hbase : base.value? with
    | none =>
      simp only [bind, Except.bind, Valued.required, hbase, Except.error.injEq] at h
      exact .inr (.inl ⟨rfl, h.symm⟩)
    | some found =>
      simp only [bind, Except.bind, Valued.required, hbase] at h
      cases found with
      | array items =>
        cases hitem : items.get? position with
        | some item => simp [hitem] at h
        | none =>
          simp only [hitem, Except.error.injEq] at h
          exact .inr (.inr (.inr ⟨_, _, h.symm⟩))
      | _ =>
        cases h
        exact .inr (.inr (.inl ⟨_, rfl, rfl⟩))
  | _ =>
    cases h
    exact .inl rfl

end indexed

/-- What there is to say of the failures of a part: each is blamed on a stretch of it. Rounds that
fail when they are applied do so up to a round that is the last of other rounds. -/
def Grammar.Part.Traced (env : Environment) (c : Cursor) (trees : List ParseTree) : Part → Prop
  | rounds t tighter => ∀ opened,
    (∀ failure, groups env trees = .error failure → Blames env ⟨.operator, opened, c⟩ failure) ∧
    ∀ found left l failure, groups env trees = .ok found →
      Valued.fold left l found = .error failure →
      ∃ trees' stop' found', Derives (.rounds t tighter) c trees' stop' ∧
        groups env trees' = .ok found' ∧ Valued.fold left l found' = .error failure ∧
        failure.span = ⟨left.start, stop'.offset⟩ ∧
        failure.cause.ShownBy (.error failure.cause)
  | _ => ∃ tree r, trees = [tree] ∧ tree.Gives env r ∧
    ∀ opened failure, r = .error failure → Blames env ⟨.operand, opened, c⟩ failure

section traced

variable {env : Environment} {c d e stop : Cursor} {t : Tier} {tighter : List Tier} {s : Symbol}
  {lexeme rest inner outer : List Char} {tree index : ParseTree} {trees : List ParseTree}

theorem traced_indexed (hname : Lexeme.identifier? c.rest = some (lexeme, rest))
    (hd : d = (c.after lexeme rest).skipLayout) (hopen : d.rest = '[' :: inner)
    (hindex : Derives .expression (d.after ['['] inner).skipLayout [index] e)
    (hclose : e.skipLayout.rest = ']' :: outer)
    (h : Part.expression.Traced env (d.after ['['] inner).skipLayout [index]) :
    Part.operand.Traced env c [c.atom (e.skipLayout.after [']'] outer)
      [c.leaf .identifier lexeme rest, d.leaf .openBracket ['['] inner, index,
        e.skipLayout.leaf .closeBracket [']'] outer]] := by
  obtain ⟨index', r, heq, hgives, hblames⟩ := h
  obtain rfl := List.singleton_inj.mp heq
  refine ⟨_, _, rfl, gives_indexed hgives, ?_⟩
  intro opened failure hfailure
  obtain ⟨hskip, -⟩ := Scanner.name_head hname
  have hstart : Reaches ⟨.operand, opened, c⟩ _
      ⟨.operand, .square :: opened, d.after ['['] inner⟩ :=
    .single (.indexed hskip.symm hname hd hopen)
  have hlayout := (d.after ['['] inner).passesLayout_skipLayout
  cases r with
  | error failure' =>
    cases hfailure
    exact ((hblames _ _ rfl).before_layout hlayout).behind hstart
  | ok v =>
    rcases indexed_eq_error hfailure with rfl | ⟨hnone, rfl⟩ | ⟨found, hfound, rfl⟩ |
      ⟨position, size, rfl⟩
    · have hshown : (EvaluationCause.indexNotInteger v.type).ShownBy (.ok v) := ⟨v, rfl, rfl⟩
      have hinside : Blames env ⟨.operand, .square :: opened, (d.after ['['] inner).skipLayout⟩
          ⟨.indexNotInteger v.type, index.unfolded.span⟩ :=
        hindex.blames rfl List.suffix_rfl hgives hshown (hindex.span_eq rfl) _
      exact (hinside.before_layout hlayout).behind hstart
    · exact blames_undefined hname hnone opened
    · refine blames_of_passes opened (Cursor.passes_after (Lexeme.identifier?_eq_some hname).1) rfl
        (sample_name hname ?_)
      rw [show env.get? (String.ofList lexeme) = some found from hfound]
      exact ⟨found, rfl, rfl⟩
    · refine (Derives.indexed hname hd hopen hindex hclose).blames rfl List.nil_suffix
        (gives_indexed hgives) ?_ rfl opened
      rw [hfailure]
      rfl

theorem traced_signed (hsymbol : Symbol.unaryAt? c.rest = some (s, rest))
    (hoperand : Derives .operand (c.after s.text rest).skipLayout [tree] stop)
    (h : Part.operand.Traced env (c.after s.text rest).skipLayout [tree]) :
    Part.operand.Traced env c [c.branch stop .unary
      [c.branch (c.after s.text rest) .unaryOperator [c.leaf (.symbol s) s.text rest], tree]] := by
  obtain ⟨tree', r, heq, hgives, hblames⟩ := h
  obtain rfl := List.singleton_inj.mp heq
  refine ⟨_, _, rfl, gives_signed s hgives, ?_⟩
  intro opened failure hfailure
  cases r with
  | error failure' =>
    cases hfailure
    have hskip := Scanner.skipLayout_of_unaryAt? hsymbol
    have hstart : Reaches ⟨.operand, opened, c⟩ _ ⟨.operand, opened, c.after s.text rest⟩ :=
      .single (.sign hskip.symm hsymbol)
    have hlayout := (c.after s.text rest).passesLayout_skipLayout
    exact ((hblames _ _ rfl).before_layout hlayout).behind hstart
  | ok v =>
    cases hunary : v.unary (String.ofList s.text) with
    | ok result =>
      simp only [bind, Except.bind, hunary] at hfailure
      cases hfailure
    | error cause =>
      simp only [bind, Except.bind, hunary, Except.error.injEq] at hfailure
      subst hfailure
      refine (Derives.signed hsymbol hoperand).blames rfl List.nil_suffix (gives_signed s hgives)
        ?_ rfl opened
      simp only [bind, Except.bind, hunary]
      exact Value.shownBy_of_unary hunary

theorem traced_tier (hreach : t :: tighter <:+ Tier.all)
    (hfirst : Derives (.tiers tighter) c [tree] d)
    (h : (Part.tiers tighter).Traced env c [tree])
    (hrounds : (Part.rounds t tighter).Traced env d.skipLayout trees) :
    (Part.tiers (t :: tighter)).Traced env c
      [c.branch stop (.tier t) [tree, d.skipLayout.branch stop (.repetition t) trees]] := by
  obtain ⟨tree', r, heq, hgives, hblames⟩ := h
  obtain rfl := List.singleton_inj.mp heq
  refine ⟨_, _, rfl, gives_tier hgives, ?_⟩
  intro opened failure hfailure
  obtain ⟨hfails, hfolds⟩ := hrounds opened
  cases r with
  | error failure' =>
    cases hfailure
    exact hblames _ _ rfl
  | ok l =>
    cases hgroups : groups env trees with
    | error failure' =>
      simp only [bind, Except.bind, hgroups, Except.error.injEq] at hfailure
      subst hfailure
      obtain ⟨e, he, hreaches⟩ := hfirst.reaches opened
      have hlayout := he.trans d.passesLayout_skipLayout
      exact ((hfails _ hgroups).before_layout hlayout).behind hreaches
    | ok found =>
      -- the rounds up to the one at fault make a tier of their own, which fails alike
      simp only [bind, Except.bind, hgroups] at hfailure
      obtain ⟨trees', stop', found', hrounds', hgroups', hfold', hspan, hshown⟩ :=
        hfolds found _ l failure hgroups hfailure
      rw [hfirst.span_eq rfl] at hspan
      refine (Derives.tier hfirst hrounds').blames rfl hreach (gives_tier hgives) ?_ hspan opened
      simp only [bind, Except.bind, hgroups', hfold']
      exact hshown

theorem traced_round (hd : d = c.skipLayout)
    (hsymbol : Symbol.binaryAt? d.rest = some (s, rest)) (hs : s ∈ t.symbols)
    (hoperand : Derives (.tiers tighter) (d.after s.text rest).skipLayout [tree] e)
    (h : (Part.tiers tighter).Traced env (d.after s.text rest).skipLayout [tree])
    (hrounds : (Part.rounds t tighter).Traced env e trees) :
    (Part.rounds t tighter).Traced env c
      ([d.branch (d.after s.text rest) (.tierOperator t) [d.leaf (.symbol s) s.text rest],
        tree] ++ trees) := by
  obtain ⟨tree', r, heq, hgives, hblames⟩ := h
  obtain rfl := List.singleton_inj.mp heq
  intro opened
  obtain ⟨hfails, hfolds⟩ := hrounds opened
  have hoperator : Reaches ⟨.operator, opened, c⟩ _ ⟨.operand, opened, d.after s.text rest⟩ :=
    .single (.operator hd hsymbol)
  have hlayout := (d.after s.text rest).passesLayout_skipLayout
  rw [groups_round s hgives]
  cases r with
  | error failure' =>
    refine ⟨?_, ?_⟩
    · rintro failure ⟨⟩
      exact ((hblames _ _ rfl).before_layout hlayout).behind hoperator
    · rintro found left l failure ⟨⟩
  | ok v =>
    cases hgroups : groups env trees with
    | error failure' =>
      simp only [bind, Except.bind, Except.map]
      refine ⟨?_, ?_⟩
      · rintro failure ⟨⟩
        obtain ⟨e', he', hreaches⟩ := hoperand.reaches opened
        exact (((hfails _ hgroups).before_layout he').behind
          (hreaches.before_layout hlayout)).behind hoperator
      · rintro found left l failure ⟨⟩
    | ok more =>
      simp only [bind, Except.bind, Except.map]
      refine ⟨?_, ?_⟩
      · rintro failure ⟨⟩
      rintro found left l failure ⟨⟩ hfold
      rw [fold_round] at hfold
      cases hbinary : l.binary (String.ofList s.text) v with
      | error cause =>
        simp only [hbinary, Except.error.injEq] at hfold
        subst hfold
        refine ⟨_, e, _, .round hd hsymbol hs hoperand (.done e), groups_round s hgives, ?_, ?_,
          Value.shownBy_of_binary hbinary⟩
        · rw [fold_round, hbinary]
        · rw [hoperand.span_eq rfl]
          rfl
      | ok l' =>
        simp only [hbinary] at hfold
        obtain ⟨trees', stop', found', hrounds', hgroups', hfold', hspan, hshown⟩ :=
          hfolds more left l' failure hgroups hfold
        refine ⟨_, stop', ((d.operatorValue (.tierOperator t) s rest).tree, tree.withValue v) ::
          found', .round hd hsymbol hs hoperand hrounds', ?_, ?_, hspan, hshown⟩
        · rw [groups_round s hgives]
          simp only [bind, Except.bind, hgroups', Except.map]
        · rw [fold_round, hbinary]
          exact hfold'

end traced

theorem Grammar.Derives.traced {p : Part} {c stop : Cursor} {trees : List ParseTree}
    (h : Derives p c trees stop) (hreach : p.reach <:+ Tier.all) (env : Environment) :
    p.Traced env c trees := by
  induction h with
  | number hnumber =>
    obtain ⟨v, -, hgives⟩ := gives_number env hnumber
    exact ⟨_, _, rfl, hgives, fun _ _ h => by cases h⟩
  | @name c lexeme rest hname hbare =>
    refine ⟨_, _, rfl, gives_name env c lexeme rest, ?_⟩
    intro opened failure hfailure
    cases hvalue : env.get? (String.ofList lexeme) with
    | some v => simp [Cursor.leafValue, Valued.required, hvalue] at hfailure
    | none =>
      simp only [Cursor.leafValue, Valued.required, hvalue, Except.error.injEq] at hfailure
      subst hfailure
      exact blames_undefined hname hvalue opened
  | indexed hname hd hopen hindex hclose ih =>
    exact traced_indexed hname hd hopen hindex hclose (ih List.suffix_rfl)
  | @group c e inner outer tree hopen hinner hclose ih =>
    obtain ⟨tree', r, heq, hgives, hblames⟩ := ih List.suffix_rfl
    obtain rfl := List.singleton_inj.mp heq
    refine ⟨_, _, rfl, gives_group hgives, ?_⟩
    intro opened failure hfailure
    have hskip : c.skipLayout = c := Cursor.skipLayout_eq_self (by simp [hopen, isLayout])
    have hstart : Reaches ⟨.operand, opened, c⟩ _
        ⟨.operand, .paren :: opened, c.after ['('] inner⟩ := .single (.paren hskip.symm hopen)
    have hlayout := (c.after ['('] inner).passesLayout_skipLayout
    exact ((hblames _ _ hfailure).before_layout hlayout).behind hstart
  | signed hsymbol hoperand ih => exact traced_signed hsymbol hoperand (ih hreach)
  | bare _ ih => exact ih hreach
  | tier hfirst _ ihFirst ihRounds =>
    have htighter := (List.suffix_cons _ _).trans hreach
    exact traced_tier hreach hfirst (ihFirst htighter) (ihRounds hreach)
  | done c =>
    refine fun opened => ⟨fun failure hgroups => ?_, ?_⟩
    · cases hgroups
    · rintro found left l failure ⟨⟩ hfold
      cases hfold
  | round hd hsymbol hs hoperand _ ihOperand ihRounds =>
    have htighter := (List.suffix_cons _ _).trans hreach
    exact traced_round hd hsymbol hs hoperand (ihOperand htighter) (ihRounds hreach)
  | expression htiers ih =>
    obtain ⟨tree', r, heq, hgives, hblames⟩ := ih hreach
    obtain rfl := List.singleton_inj.mp heq
    exact ⟨_, r, rfl, gives_single (.inl rfl) hgives, hblames⟩

/-- The stretch that a failure is blamed on lies within the text. -/
theorem Blames.exists_span_eq {env : Environment} {source : List Char} {failure : EvaluationError}
    (h : Blames env (.start source) failure) :
    ∃ before part after, source = before ++ (part ++ after) ∧ failure.span =
      ⟨Text.byteLength before, Text.byteLength before + Text.byteLength part⟩ := by
  obtain ⟨tokens, opened, d, c, part, after, hreaches, ⟨layout, -, hgap⟩, hrest, hspan, -⟩ := h
  obtain ⟨text, hpass⟩ := hreaches.passes
  obtain ⟨hsource, hoffset⟩ := hpass.trans hgap
  replace hoffset : c.offset = Text.byteLength (text ++ layout) := hoffset.trans (Nat.zero_add _)
  refine ⟨text ++ layout, part, after, ?_, by rw [hspan, hoffset]⟩
  rw [← hrest]
  exact hsource

/-- Every failure of a tree that was read is blamed on a stretch of the source. -/
theorem SyntaxTree.IsOf.blames {t : SyntaxTree} {tree : ParseTree} {source : String}
    {env : Environment} {failure : EvaluationError} (h : t.IsOf tree source)
    (hfailure : tree.unfolded.evaluate env = .error failure) :
    Blames env.withTruthValues (.start source.toList) failure := by
  obtain ⟨stop, hderives, -⟩ := h.derives
  obtain ⟨tree', r, heq, hgives, hblames⟩ := hderives.traced List.suffix_rfl env.withTruthValues
  obtain rfl := List.singleton_inj.mp heq
  rw [hgives.evaluate_eq] at hfailure
  exact (hblames [] failure hfailure).before_layout (Cursor.passesLayout_skipLayout _)

end Reckon
