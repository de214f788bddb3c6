import Reckon.Proofs.Grammar.Settling.Operand
import Reckon.Proofs.Grammar.Settling.Round

/-!
Tiers over their operands, expressions, and texts as a whole. With a level for
each character every text is settled, and at its end the scan and the matching
have come to the same place.
-/

namespace Reckon.Grammar

variable {c stop : Cursor} {f f' f'' : Furthest}

section expression

variable {bound : Nat} {operand : Matcher}

private theorem tier_settles {t : Tier} {tighter : List Tier} (ht : t ∉ tighter)
    (htighter : SettlesBelow (.tiers tighter) bound (tiers operand tighter)) :
    SettlesBelow (.tiers (t :: tighter)) bound (tiers operand (t :: tighter)) := by
  intro c f hbound hskip
  have hsettles := htighter c f hbound hskip
  rcases hrun : tiers operand tighter c f with ⟨found, f₁⟩
  rw [hrun] at hsettles
  rcases hsettles with ⟨trees, d, rfl, hderives, hfollows, hleaves⟩ |
    ⟨place, failed, hsticks, rfl, hmatch⟩
  · obtain ⟨tree, rfl⟩ := hderives.exists_eq_singleton rfl
    have hshorter := hderives.length_lt rfl
    have hshorter' := d.length_skipLayout_le
    have hfollows' : ¬ Follows tighter d.skipLayout := by rwa [follows_skipLayout]
    have hsettles := many_settles htighter ht (by omega) d.skipLayout_skipLayout hfollows' hleaves
    obtain ⟨more, stop, f₂, hmany⟩ :=
      exists_of_many (round t (tiers operand tighter)) d.skipLayout f₁
    rw [hmany] at hsettles
    have hout : tiers operand (t :: tighter) c f = _ :=
      rule_eq_some (andThen_eq_some hrun (rule_eq_some hmany))
    rw [hout]
    rcases hsettles with ⟨trees, stop', heq, hrounds, hlast, hleaves'⟩ |
      ⟨place, failed, hsticks, hrecord, hmatch⟩
    · cases heq
      exact .inl ⟨_, stop, rfl, .tier hderives hrounds, hlast, by simpa [Part.reach] using hleaves'⟩
    · refine .inr ⟨place, failed, fun opened => ?_, hrecord, ?_⟩
      · obtain ⟨e, he, hreaches⟩ := hderives.reaches opened
        exact ((hsticks opened).before_layout (he.trans d.passesLayout_skipLayout)).behind hreaches
      · rintro trees' stop' ⟨⟩
        exact hmatch more stop rfl
  · cases found with
    | none =>
      have hout : tiers operand (t :: tighter) c f = _ :=
        rule_eq_none_of_sticks (hsticks []) (andThen_eq_none_left hrun) (.tier t)
      rw [hout]
      exact .inr ⟨place, failed, .of_none hsticks⟩
    | some found =>
      -- what stands behind the tighter tiers belongs to one of them and starts no round here
      obtain ⟨trees, stop⟩ := found
      obtain ⟨hstop, hnext⟩ := hmatch trees stop rfl
      have hround := round_eq_none (not_mem_symbols ht hnext) (tiers operand tighter)
        (f.push place failed)
      rw [f.push_behind _ _ hstop] at hround
      have hmany : many (round t (tiers operand tighter)) stop.skipLayout (f.push place failed) =
          (some ([], stop.skipLayout), f.push place failed) := by
        simp only [many, hround]
      have hout : tiers operand (t :: tighter) c f = _ :=
        rule_eq_some (andThen_eq_some hrun (rule_eq_some hmany))
      rw [hout]
      refine .inr ⟨place, failed, hsticks, rfl, ?_⟩
      rintro trees' stop' ⟨⟩
      have hnext' := Follows.of_tighter (t := t) hnext
      rw [← follows_skipLayout] at hnext'
      rw [Cursor.skipLayout_skipLayout]
      exact ⟨hstop, hnext'⟩

/-- Tiers of which none comes twice are settled over a settled operand. -/
theorem tiers_settles (hoperand : SettlesBelow .operand bound operand) {ts : List Tier}
    (hts : ts.Nodup) : SettlesBelow (.tiers ts) bound (tiers operand ts) := by
  induction ts with
  | nil =>
    intro c f hbound hskip
    rcases hoperand c f hbound hskip with
      ⟨trees, stop, hmatch, hderives, hfollows, hleaves⟩ | ⟨place, failed, hstrays⟩
    · obtain ⟨tree, rfl⟩ := hderives.exists_eq_singleton rfl
      exact .inl ⟨[tree], stop, hmatch, .bare hderives, hfollows, hleaves⟩
    · obtain ⟨hsticks, hrecord, hmatch⟩ := hstrays
      exact .inr ⟨place, failed, hsticks, hrecord, hmatch⟩
  | cons t tighter ih =>
    obtain ⟨ht, htighter⟩ := List.nodup_cons.mp hts
    exact tier_settles ht (ih htighter)

theorem expression_settles (hoperand : SettlesBelow .operand bound operand) :
    SettlesBelow .expression bound (expression operand) := by
  intro c f hbound hskip
  rcases tiers_settles hoperand (by decide : Tier.all.Nodup) c f hbound hskip with
    ⟨trees, stop, hmatch, hderives, hfollows, hleaves⟩ | ⟨place, failed, hstrays⟩
  · obtain ⟨tree, rfl⟩ := hderives.exists_eq_singleton rfl
    rcases hrun : tiers operand Tier.all c f with ⟨found, f₁⟩
    rw [hrun] at hmatch hleaves
    obtain rfl : found = some ([tree], stop) := hmatch
    have hout : expression operand c f = _ := rule_eq_some hrun
    rw [hout]
    exact .inl ⟨_, stop, rfl, .expression hderives, hfollows, by simpa [Part.reach] using hleaves⟩
  · exact .inr ⟨place, failed, hstrays.in_rule .expression rfl rfl .expression⟩

end expression

/-- A matcher of enough levels settles its text, whatever the text. -/
theorem operand_settles (level : Nat) : SettlesBelow .operand level (unary level) := by
  induction level with
  | zero =>
    intro c f hbound
    exact absurd hbound (Nat.not_lt_zero _)
  | succ level ih => exact unary_settles (expression_settles ih) ih

/-- The tree of a whole text: an expression between its start and its end. -/
def Cursor.whole (c stop : Cursor) (tree : ParseTree) : ParseTree :=
  c.branch stop .main [tree, stop.leaf .endOfInput [] []]

section main

variable {source : List Char}

theorem startOfInput_eq (source : List Char) (f : Furthest) :
    startOfInput (.start source) f = (some ([], .start source), f) := rfl

theorem run_main_eq_ok {tree : ParseTree}
    (h : expression (unary (source.length + 1)) (Cursor.start source).skipLayout .empty =
      (some ([tree], stop), f)) (hend : stop.skipLayout.rest = []) :
    Grammar.run .main source = .ok [(Cursor.start source).whole stop.skipLayout tree] := by
  have hmain := rule_eq_some (r := .main) (andThen_eq_some (startOfInput_eq source .empty)
    (andThen_eq_some h (endOfInput_eq_some hend)))
  simp only [Grammar.run, ofRule, hmain]
  rfl

/-- Where a text fails, the rules on record are those that fail at the place. -/
private theorem run_main_eq_error {place : Nat} {failed : List Rule}
    (h : andThen startOfInput (andThen (expression (unary (source.length + 1))) endOfInput)
      (.start source) .empty = (none, Furthest.empty.push place failed))
    (hsticks : Sticks (.start source) place failed) :
    Grammar.run .main source = .error ⟨place, Rule.all.filter fun r => failed.contains r⟩ := by
  have hmain := rule_eq_none_of_sticks hsticks h .main
  rw [Furthest.empty_push] at hmain
  simp only [Grammar.run, ofRule, hmain]

/-- A text is matched and scanned to its end, with the same tokens, or it is matched up to the
place where its scan sticks, and the rules that fail there are found to be missing. -/
theorem run_main (source : List Char) :
    (∃ tree stop,
        Grammar.run .main source = .ok [(Cursor.start source).whole stop.skipLayout tree] ∧
        Derives .expression (Cursor.start source).skipLayout [tree] stop ∧
        stop.skipLayout.rest = [] ∧ (Scanner.start source).run = ⟨tree.texts, none⟩) ∨
      ∃ place failed,
        Grammar.run .main source = .error ⟨place, Rule.all.filter fun r => failed.contains r⟩ ∧
        Sticks (.start source) place failed := by
  have hlayout := (Cursor.start source).passesLayout_skipLayout
  have hsettles := expression_settles (operand_settles (source.length + 1))
    (Cursor.start source).skipLayout .empty
    (Nat.lt_succ_of_le (Cursor.length_skipLayout_le _)) (Cursor.skipLayout_skipLayout _)
  rcases hrun : expression (unary (source.length + 1)) (Cursor.start source).skipLayout .empty
    with ⟨found, f⟩
  rw [hrun] at hsettles
  rcases hsettles with ⟨trees, stop, rfl, hderives, hfollows, hleaves⟩ |
    ⟨place, failed, hsticks, rfl, hmatch⟩
  · obtain ⟨tree, rfl⟩ := hderives.exists_eq_singleton rfl
    by_cases hend : stop.skipLayout.rest = []
    · have hscan := hderives.run []
      have hnext : Scanner.next? ⟨.operator, [], stop⟩ = none :=
        Scanner.operator?_eq_none (binaryAt?_eq_none_of_not_follows hfollows) (by simp)
      have hdone : Scanner.isDone ⟨.operator, [], stop⟩ = true := by
        simp [Scanner.isDone, hend]
      rw [Part.expecting, Scanner.run_skipLayout, Scanner.run_of_next?_eq_none hnext] at hscan
      refine .inl ⟨tree, stop, run_main_eq_ok hrun hend, hderives, hend, hscan.trans ?_⟩
      simp [Scan.after, hdone]
    · have hout := andThen_eq_none_right hrun (endOfInput_eq_none hend)
      rw [hleaves, Option.or_none] at hout
      have hsticks : Sticks (.start source) _ _ :=
        (hderives.sticks rfl hfollows (by simp) fun _ => hend).before_layout hlayout
      exact .inr ⟨_, _, run_main_eq_error
        (andThen_eq_none_right (startOfInput_eq source .empty) hout) hsticks, hsticks⟩
  · have hsticks' := (hsticks []).before_layout hlayout
    refine .inr ⟨place, failed, run_main_eq_error
      (andThen_eq_none_right (startOfInput_eq source .empty) ?_) hsticks', hsticks'⟩
    cases found with
    | none => exact andThen_eq_none_left hrun
    | some found =>
      obtain ⟨trees, stop⟩ := found
      obtain ⟨hstop, hnext⟩ := hmatch trees stop rfl
      have hend : stop.skipLayout.rest ≠ [] := by
        intro hend
        rcases hnext with ⟨s, rest, hsymbol, -⟩ | hopen
        · rw [hend] at hsymbol
          cases hsymbol
        · rw [hend] at hopen
          cases hopen
      have hout := andThen_eq_none_right hrun (endOfInput_eq_none hend)
      rwa [Furthest.push_behind _ _ _ hstop] at hout

end main

end Reckon.Grammar
