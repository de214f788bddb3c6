import Reckon.Proofs.Grammar.Settling.Basic

/-!
The rounds of a tier. A round that fails behind its operator is given up with
the operator, which then stands behind the match; the tiers around this one
have other symbols and do not take it either.
-/

namespace Reckon.Grammar

variable {c stop : Cursor} {f f' f'' : Furthest}

/-- Every symbol belongs to one tier. -/
theorem tier_eq_of_mem {t t' : Tier} {s : Symbol} (h : s ∈ t.symbols) (h' : s ∈ t'.symbols) :
    t = t' := by
  cases t <;> cases t' <;> first | rfl | (cases s <;> simp [Tier.symbols] at h h')

/-- A symbol of one tier, or a bracket, is not taken by another tier. -/
theorem not_mem_symbols {t : Tier} {tighter : List Tier} (ht : t ∉ tighter)
    (h : Follows tighter c ∨ c.skipLayout.rest.head? = some '[') :
    ∀ s rest, Symbol.binaryAt? c.skipLayout.rest = some (s, rest) → s ∉ t.symbols := by
  intro s rest hsymbol hs
  rcases h with ⟨s', rest', hsymbol', t', ht', hs'⟩ | hopen
  · rw [hsymbol] at hsymbol'
    cases hsymbol'
    exact ht (tier_eq_of_mem hs hs' ▸ ht')
  · obtain ⟨more, hmore⟩ := List.head?_eq_some_iff.mp hopen
    rw [hmore] at hsymbol
    cases hsymbol

theorem Follows.of_tighter {t : Tier} {tighter : List Tier}
    (h : Follows tighter c ∨ c.skipLayout.rest.head? = some '[') :
    Follows (t :: tighter) c ∨ c.skipLayout.rest.head? = some '[' := by
  refine h.imp_left ?_
  rintro ⟨s, rest, hsymbol, t', ht', hs⟩
  exact ⟨s, rest, hsymbol, t', List.mem_cons_of_mem _ ht', hs⟩

section rounds

variable {bound : Nat} {operand : Matcher} {t : Tier} {tighter : List Tier}

/-- The operator and the operand of a round. -/
def round (t : Tier) (operand : Matcher) : Matcher := andThen (tierOperator t) operand

theorem round_eq_none
    (h : ∀ s rest, Symbol.binaryAt? c.rest = some (s, rest) → s ∉ t.symbols) (operand : Matcher)
    (f : Furthest) : round t operand c f = (none, f.push c.offset [t.failure]) :=
  andThen_eq_none_left (tierOperator_eq_none h f)

/-- The rounds from a cursor on, at most `n` of them. -/
def rounds (t : Tier) (operand : Matcher) (n : Nat) : Matcher := fun c f =>
  (some (moreRounds (round t operand) n c f).1, (moreRounds (round t operand) n c f).2)

theorem rounds_eq_nil (h : round t operand c.skipLayout f = (none, f')) (n : Nat) :
    rounds t operand (n + 1) c f = (some ([], c), f') := by
  simp only [rounds, moreRounds, h]

theorem rounds_eq_cons {trees more : List ParseTree} {e : Cursor}
    (h : round t operand c.skipLayout f = (some (trees, e), f')) {n : Nat}
    (h' : rounds t operand n e f' = (some (more, stop), f'')) :
    rounds t operand (n + 1) c f = (some (trees ++ more, stop), f'') := by
  simp only [rounds, Prod.mk.injEq, Option.some.injEq] at h'
  obtain ⟨hmore, rfl⟩ := h'
  simp only [rounds, moreRounds, h, hmore]

/-- Where no symbol of the tier stands, there is no round, nor a failure to record if some other
stands further on. -/
theorem rounds_eq_nil_behind
    (h : ∀ s rest, Symbol.binaryAt? c.skipLayout.rest = some (s, rest) → s ∉ t.symbols)
    {place : Nat} (hplace : c.skipLayout.offset < place) (failed : List Rule) (operand : Matcher)
    (n : Nat) (f : Furthest) :
    rounds t operand n c (f.push place failed) = (some ([], c), f.push place failed) := by
  cases n with
  | zero => rfl
  | succ n =>
    have hround := round_eq_none h operand (f.push place failed)
    rw [f.push_behind _ _ hplace] at hround
    exact rounds_eq_nil hround n

/-- A round whose operand is read comes before those behind it. -/
private theorem rounds_of_reads {s : Symbol} {rest : List Char}
    (hsymbol : Symbol.binaryAt? c.skipLayout.rest = some (s, rest)) (hs : s ∈ t.symbols)
    {tree : ParseTree} {e : Cursor}
    (hderives : Derives (.tiers tighter) (c.skipLayout.after s.text rest).skipLayout [tree] e)
    (hround : round t operand c.skipLayout f' = (some ([c.skipLayout.branch
      (c.skipLayout.after s.text rest) (.tierOperator t)
      [c.skipLayout.leaf (.symbol s) s.text rest], tree], e), f'')) (n : Nat)
    (hmore : Settles (.rounds t tighter) e f (lastRule? tree.leaves) (rounds t operand n e f''))
    (last : Option Rule) :
    Settles (.rounds t tighter) c f last (rounds t operand (n + 1) c f') := by
  rcases hmoreRounds : rounds t operand n e f'' with ⟨found, f₃⟩
  rw [hmoreRounds] at hmore
  obtain ⟨⟨more, stop⟩, rfl⟩ : ∃ more, found = some more :=
    ⟨_, (congrArg Prod.fst hmoreRounds).symm⟩
  rw [rounds_eq_cons hround hmoreRounds]
  rcases hmore with ⟨trees, stop', heq, hrounds, hlast, hleaves⟩ |
    ⟨place, failed, hsticks, hrecord, hmatch⟩
  · cases heq
    obtain ⟨r, hr⟩ : ∃ r, lastRule? tree.leaves = some r := by
      simpa using hderives.exists_lastRule? rfl
    refine .inl ⟨_, stop, rfl, .round rfl hsymbol hs hderives hrounds, hlast, ?_⟩
    simpa [hr] using hleaves
  · refine .inr ⟨place, failed, fun opened => ?_, hrecord, ?_⟩
    · obtain ⟨d, hd, hreaches⟩ := hderives.reaches opened
      have hbehind := ((hsticks opened).before_layout hd).behind hreaches
      exact hbehind.behind_step (.operator rfl hsymbol)
    · rintro trees' stop' ⟨⟩
      exact hmatch more stop rfl

/-- A round whose operand strays is given up, or there is no other round behind it. -/
private theorem rounds_of_strays (ht : t ∉ tighter) {s : Symbol} {rest : List Char}
    (hsymbol : Symbol.binaryAt? c.skipLayout.rest = some (s, rest)) (hs : s ∈ t.symbols)
    {trees : List ParseTree} {found : Option (List ParseTree × Cursor)} {place : Nat}
    {failed : List Rule} (hfirst : tierOperator t c.skipLayout f' =
      (some (trees, c.skipLayout.after s.text rest), f''))
    (hrun : operand (c.skipLayout.after s.text rest).skipLayout f'' =
      (found, f.push place failed))
    (hsticks : ∀ opened, Sticks ⟨.operand, opened, (c.skipLayout.after s.text rest).skipLayout⟩
      place failed)
    (hmatch : ∀ trees stop, found = some (trees, stop) → stop.skipLayout.offset < place ∧
      (Follows tighter stop ∨ stop.skipLayout.rest.head? = some '[')) (n : Nat) :
    Strays (.rounds t tighter) c f (rounds t operand (n + 1) c f') := by
  have hstep : ∀ opened, Step ⟨.operator, opened, c⟩ _ _ := fun opened => .operator rfl hsymbol
  have hsticks' : ∀ opened, Sticks ⟨.operator, opened, c⟩ place failed := fun opened =>
    (hsticks opened).behind_step (hstep opened)
  cases found with
  | none =>
    rw [rounds_eq_nil (andThen_eq_none_right hfirst hrun)]
    refine ⟨place, failed, hsticks', rfl, ?_⟩
    rintro trees stop ⟨⟩
    exact ⟨(hsticks []).offset_lt_of_step (hstep []),
      .inl ⟨s, rest, hsymbol, t, List.mem_cons_self, hs⟩⟩
  | some found =>
    -- the operand stops before a tighter symbol or a bracket, so there is no other round
    obtain ⟨trees, stop⟩ := found
    obtain ⟨hstop, hnext⟩ := hmatch trees stop rfl
    have hnone := rounds_eq_nil_behind (not_mem_symbols ht hnext) hstop failed operand n f
    rw [rounds_eq_cons (andThen_eq_some hfirst hrun) hnone]
    refine ⟨place, failed, hsticks', rfl, ?_⟩
    rintro trees' stop' ⟨⟩
    exact ⟨hstop, Follows.of_tighter hnext⟩

/-- Where a symbol of the tier stands, rounds are settled when those behind the first are. -/
private theorem rounds_of_symbol (hoperand : SettlesBelow (.tiers tighter) bound operand)
    (ht : t ∉ tighter) (hbound : c.rest.length ≤ bound) {s : Symbol} {rest : List Char}
    (hsymbol : Symbol.binaryAt? c.skipLayout.rest = some (s, rest)) (hs : s ∈ t.symbols)
    {last : Option Rule} {rules : List Rule} (hf : f.Leaves f' c.skipLayout.offset rules) (n : Nat)
    (hmore : ∀ trees e f'' last', round t operand c.skipLayout f' = (some (trees, e), f'') →
      e.rest.length < c.rest.length → ¬ Follows tighter e →
      f.Leaves f'' e.skipLayout.offset (failedBehind last' tighter) →
      Settles (.rounds t tighter) e f last' (rounds t operand n e f'')) :
    Settles (.rounds t tighter) c f last (rounds t operand (n + 1) c f') := by
  have hlength := (Cursor.passes_after (Symbol.append_of_binaryAt? hsymbol)).length_eq
  have hpos : 0 < s.text.length := List.length_pos_iff.mpr s.text_ne_nil
  have hskip := c.length_skipLayout_le
  have hskip' := (c.skipLayout.after s.text rest).length_skipLayout_le
  have hstep : Step ⟨.operator, [], c⟩ _ _ := .operator rfl hsymbol
  obtain ⟨f₁, rules₁, hf₁, hleaves₁⟩ := tierOperator_eq_some hs hsymbol f'
  have hbefore := hf.trans hleaves₁
  rcases hrun : operand (c.skipLayout.after s.text rest).skipLayout f₁ with ⟨found, f₂⟩
  have hsettles := hoperand (c.skipLayout.after s.text rest).skipLayout f₁ (by omega)
    (Cursor.skipLayout_skipLayout _)
  rw [hrun] at hsettles
  rcases hsettles with ⟨trees, e, rfl, hderives, hfollows, hleaves⟩ |
    ⟨place, failed, hsticks, rfl, hmatch⟩
  · obtain ⟨tree, rfl⟩ := hderives.exists_eq_singleton rfl
    have hround : round t operand c.skipLayout f' = _ := andThen_eq_some hf₁ hrun
    have hshorter := hderives.length_lt rfl
    have hend := (hstep.offset_lt.trans_le (Cursor.offset_le_skipLayout _)).trans
      (hderives.offset_lt rfl)
    exact rounds_of_reads hsymbol hs hderives hround n
      (hmore _ e f₂ _ hround (by omega) hfollows
        (by simpa [Part.reach] using (hbefore.of_lt hend).trans hleaves)) last
  · have hpush : f₁.push place failed = f.push place failed :=
      hbefore.of_lt ((hsticks []).offset_lt_of_step hstep) failed
    rw [hpush] at hrun
    exact .inr (rounds_of_strays ht hsymbol hs hf₁ hrun hsticks hmatch n)

theorem rounds_succ_settles (hoperand : SettlesBelow (.tiers tighter) bound operand)
    (ht : t ∉ tighter) (hbound : c.rest.length ≤ bound) (hfollows : ¬ Follows tighter c)
    {last : Option Rule} (hf : f.Leaves f' c.skipLayout.offset (failedBehind last tighter))
    (n : Nat)
    (hmore : ∀ trees e f'' last', round t operand c.skipLayout f' = (some (trees, e), f'') →
      e.rest.length < c.rest.length → ¬ Follows tighter e →
      f.Leaves f'' e.skipLayout.offset (failedBehind last' tighter) →
      Settles (.rounds t tighter) e f last' (rounds t operand n e f'')) :
    Settles (.rounds t tighter) c f last (rounds t operand (n + 1) c f') := by
  by_cases hfirst : ∃ s rest, Symbol.binaryAt? c.skipLayout.rest = some (s, rest) ∧ s ∈ t.symbols
  · obtain ⟨s, rest, hsymbol, hs⟩ := hfirst
    exact rounds_of_symbol hoperand ht hbound hsymbol hs hf n hmore
  · have hnone : ∀ s rest, Symbol.binaryAt? c.skipLayout.rest = some (s, rest) → s ∉ t.symbols :=
      fun s rest hsymbol hs => hfirst ⟨s, rest, hsymbol, hs⟩
    have hfailed := hf.trans (.push_self f' _ [t.failure])
    rw [rounds_eq_nil (round_eq_none hnone operand f')]
    refine .inl ⟨[], c, rfl, .done c, ?_, by simpa [Part.reach] using hfailed⟩
    rintro ⟨s, rest, hsymbol, t', ht', hs⟩
    rcases List.mem_cons.mp ht' with rfl | ht'
    · exact hfirst ⟨s, rest, hsymbol, hs⟩
    · exact hfollows ⟨s, rest, hsymbol, t', ht', hs⟩

theorem rounds_settles (hoperand : SettlesBelow (.tiers tighter) bound operand) (ht : t ∉ tighter)
    {n : Nat} (hbound : c.rest.length ≤ bound) (hn : c.rest.length < n)
    (hfollows : ¬ Follows tighter c) {last : Option Rule}
    (hf : f.Leaves f' c.skipLayout.offset (failedBehind last tighter)) :
    Settles (.rounds t tighter) c f last (rounds t operand n c f') := by
  induction n generalizing c f' last with
  | zero => exact absurd hn (Nat.not_lt_zero _)
  | succ n ih =>
    refine rounds_succ_settles hoperand ht hbound hfollows hf n ?_
    intro trees e f'' last' _ hshorter hfollows' hf'
    exact ih (by omega) (by omega) hfollows' hf'

/-- Rounds are tried once more than there are characters behind the first. -/
theorem many_eq_rounds (t : Tier) (operand : Matcher) (h : c.skipLayout = c) (f : Furthest) :
    ∃ n, many (round t operand) c f = rounds t operand (n + 1) c f ∧
      ∀ trees e f', round t operand c f = (some (trees, e), f') → n = e.rest.length + 1 := by
  rcases hround : round t operand c f with ⟨found, f'⟩
  cases found with
  | none =>
    refine ⟨0, ?_, fun _ _ _ h => nomatch h⟩
    rw [rounds_eq_nil (by rw [h, hround])]
    simp only [many, hround]
  | some found =>
    obtain ⟨trees, e⟩ := found
    refine ⟨e.rest.length + 1, ?_, ?_⟩
    · rw [rounds_eq_cons (by rw [h, hround]) rfl]
      simp only [many, hround]
    · rintro trees' e' f'' ⟨⟩
      rfl

theorem exists_of_many (matcher : Matcher) (c : Cursor) (f : Furthest) :
    ∃ trees stop f', many matcher c f = (some (trees, stop), f') := by
  unfold many
  split <;> exact ⟨_, _, _, rfl⟩

theorem many_settles (hoperand : SettlesBelow (.tiers tighter) bound operand) (ht : t ∉ tighter)
    (hbound : c.rest.length ≤ bound) (hskip : c.skipLayout = c) (hfollows : ¬ Follows tighter c)
    {last : Option Rule} (hf : f.Leaves f' c.offset (failedBehind last tighter)) :
    Settles (.rounds t tighter) c f last (many (round t operand) c f') := by
  obtain ⟨n, hmany, hn⟩ := many_eq_rounds t operand hskip f'
  rw [hmany]
  refine rounds_succ_settles hoperand ht hbound hfollows (hskip.symm ▸ hf) n ?_
  intro trees e f'' last' hround hshorter hfollows' hf'
  rw [hskip] at hround
  rw [hn trees e f'' hround]
  exact rounds_settles hoperand ht (by omega) (Nat.lt_succ_self _) hfollows' hf'

end rounds

end Reckon.Grammar
