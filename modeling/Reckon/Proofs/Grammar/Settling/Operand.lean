import Reckon.Proofs.Grammar.Settling.Basic

/-!
Operands, with the symbols before them. Of the alternatives of a primary only
the index behind a name is given up for a later one: where the brackets do not
match, the name is matched a second time by itself, and it stands before the
bracket that no tier takes.
-/

namespace Reckon.Grammar

variable {c stop : Cursor} {f f' f'' : Furthest}

theorem number_eq_some {lexeme rest : List Char}
    (h : Lexeme.number? c.rest = some (lexeme, rest)) :
    number c f = (some ([c.branch (c.after lexeme rest) .number
      [c.leaf .numberLiteral lexeme rest]], c.after lexeme rest), f) :=
  rule_eq_some (token_eq_some h)

theorem number_eq_none (h : Lexeme.number? c.rest = none) :
    number c f = (none, f.push c.offset [.numberLiteral]) :=
  rule_eq_none_single (token_eq_none h)

theorem identifier_eq_some {lexeme rest : List Char}
    (h : Lexeme.identifier? c.rest = some (lexeme, rest)) :
    identifier c f = (some ([c.leaf .identifier lexeme rest], c.after lexeme rest), f) :=
  token_eq_some h

theorem identifier_eq_none (h : Lexeme.identifier? c.rest = none) :
    identifier c f = (none, f.push c.offset [.identifier]) :=
  token_eq_none h

/-- The first alternative of a primary. -/
def group (inner : Matcher) : Matcher :=
  andThen (bracket .openParen '(') (andThen inner (bracket .closeParen ')'))

/-- The index behind a name, in the second alternative of a primary. -/
def indexing (inner : Matcher) : Matcher :=
  andThen (bracket .openBracket '[') (andThen inner (bracket .closeBracket ']'))

theorem primary_eq (operand : Matcher) :
    primary operand = rule .primary (orElse (group (expression operand))
      (orElse (andThen identifier (indexing (expression operand))) (orElse number identifier))) :=
  rfl

/-- Where neither a number nor a name starts, a primary is a group or nothing. -/
theorem alternatives_eq_none {operand : Matcher} (hnumber : Lexeme.number? c.rest = none)
    (hname : Lexeme.identifier? c.rest = none)
    (hgroup : group (expression operand) c f = (none, f')) :
    orElse (group (expression operand)) (orElse (andThen identifier
      (indexing (expression operand))) (orElse number identifier)) c f =
      (none, f'.push c.offset [.identifier, .numberLiteral, .identifier]) := by
  rw [orElse_eq_right hgroup, orElse_eq_right (andThen_eq_none_left (identifier_eq_none hname)),
    orElse_eq_right (number_eq_none hnumber), identifier_eq_none hname]
  simp only [Furthest.push_push, List.cons_append, List.nil_append]

/-- A group fails at once where no parenthesis opens. -/
theorem group_eq_none (h : Lexeme.exactly? ['('] c.rest = none) (inner : Matcher)
    (f : Furthest) : group inner c f = (none, f.push c.offset [.openParen]) :=
  andThen_eq_none_left (token_eq_none h)

/-- An index fails at once where no bracket opens. -/
theorem indexing_eq_none (h : c.rest.head? ≠ some '[') (inner : Matcher) (f : Furthest) :
    indexing inner c f = (none, f.push c.offset [.openBracket]) :=
  andThen_eq_none_left (token_eq_none (Lexeme.exactly?_eq_none h))

theorem primary_eq_none {operand : Matcher} (hnumber : Lexeme.number? c.rest = none)
    (hname : Lexeme.identifier? c.rest = none) (hparen : Lexeme.exactly? ['('] c.rest = none)
    (f : Furthest) : primary operand c f = (none, f.push c.offset [.primary]) := by
  have hgroup := group_eq_none hparen (expression operand) f
  have hbody := alternatives_eq_none hnumber hname hgroup
  rw [Furthest.push_push] at hbody
  exact rule_eq_none_several hbody (by decide)

/-- A group that fails inside leaves its failures on record. -/
theorem primary_eq_none_behind {operand : Matcher} {place : Nat} {failed : List Rule}
    (hnumber : Lexeme.number? c.rest = none) (hname : Lexeme.identifier? c.rest = none)
    (hgroup : group (expression operand) c f = (none, f'.push place failed))
    (hplace : c.offset < place) : primary operand c f = (none, f'.push place failed) := by
  have hbody := alternatives_eq_none hnumber hname hgroup
  rw [Furthest.push_behind _ _ _ hplace] at hbody
  exact rule_eq_none_behind hbody hplace

/-- Where the index behind a name is matched, the name is matched with it. -/
theorem primary_eq_indexed {operand : Matcher} {lexeme rest : List Char} {trees : List ParseTree}
    (hname : Lexeme.identifier? c.rest = some (lexeme, rest))
    (hindex : indexing (expression operand) (c.after lexeme rest).skipLayout
      (f.push c.offset [.openParen]) = (some (trees, stop), f')) :
    primary operand c f =
      (some ([c.branch stop .primary (c.leaf .identifier lexeme rest :: trees)], stop), f') := by
  obtain ⟨-, -, hparen⟩ := Scanner.name_head hname
  rw [primary_eq]
  apply rule_eq_some
  rw [orElse_eq_right (group_eq_none hparen (expression operand) f)]
  exact orElse_eq_left (andThen_eq_some (identifier_eq_some hname) hindex)

/-- Where the index behind a name is not matched, the name is matched a second time without it. -/
theorem primary_eq_bare {operand : Matcher} {lexeme rest : List Char} {place : Nat}
    {failed : List Rule} (hname : Lexeme.identifier? c.rest = some (lexeme, rest))
    (hplace : c.offset < place)
    (hindex : indexing (expression operand) (c.after lexeme rest).skipLayout
      (f.push c.offset [.openParen]) = (none, (f.push c.offset [.openParen]).push place failed)) :
    primary operand c f = (some ([c.branch (c.after lexeme rest) .primary
      [c.leaf .identifier lexeme rest]], c.after lexeme rest), f.push place failed) := by
  obtain ⟨-, -, hparen⟩ := Scanner.name_head hname
  have hnumber := Lexeme.number?_eq_none_of_identifier? (Option.isSome_of_eq_some hname)
  rw [f.push_of_lt _ _ hplace] at hindex
  rw [primary_eq]
  apply rule_eq_some
  rw [orElse_eq_right (group_eq_none hparen (expression operand) f),
    orElse_eq_right (andThen_eq_none_right (identifier_eq_some hname) hindex),
    orElse_eq_right (number_eq_none hnumber), f.push_behind _ _ hplace]
  exact identifier_eq_some hname

/-- A primary that is matched as the rules say. -/
def ReadsPrimary (c : Cursor) (f : Furthest) (out : Outcome) : Prop :=
  ∃ children stop, out.1 = some ([c.branch stop .primary children], stop) ∧
    Derives .operand c [c.atom stop children] stop ∧
    f.Leaves out.2 stop.skipLayout.offset
      (failedBehind (lastRule? (ParseTree.leavesOf children)) [])

/-- A primary that strays behind its first character. -/
def StraysInside (c : Cursor) (f : Furthest) (out : Outcome) : Prop :=
  ∃ place failed, c.offset < place ∧ StraysAt .operand c f out place failed

section primary

variable {bound : Nat} {operand : Matcher}

private theorem primary_paren (hinner : SettlesBelow .expression bound (expression operand))
    {rest : List Char} (hopen : c.rest = '(' :: rest) (hbound : rest.length < bound)
    (f : Furthest) :
    ReadsPrimary c f (primary operand c f) ∨ StraysInside c f (primary operand c f) := by
  have hskip : c.skipLayout = c := Cursor.skipLayout_eq_self (by simp [hopen, isLayout])
  rcases hgroup : group (expression operand) c f with ⟨found, f₁⟩
  rcases enclosed_settles hinner hopen hbound .paren hgroup with
    ⟨tree, e, outer, rfl, hderives, hclose, rules, hleaves⟩ | ⟨place, failed, heq, hplace, hsticks⟩
  · have hout : primary operand c f = _ := rule_eq_some (orElse_eq_left hgroup)
    have hend := (e.skipLayout.offset_lt_after ')' [] outer).trans_le
      (Cursor.offset_le_skipLayout _)
    rw [hout]
    exact .inl ⟨_, _, rfl, .group hopen hderives hclose,
      by simpa [failedBehind, Cursor.token, Bracket.closing, Bracket.closingRule] using
        hleaves.of_lt hend⟩
  · obtain ⟨rfl, rfl⟩ := Prod.mk.inj heq
    have hparen : Lexeme.exactly? ['('] c.rest = some (['('], rest) := by
      rw [hopen, Lexeme.exactly?_cons]
    obtain ⟨hnumber, hname⟩ := Scanner.word?_eq_none (c := c) (.inr (by simp [hparen]))
    rw [primary_eq_none_behind hnumber hname hgroup hplace]
    exact .inr ⟨place, failed, hplace, .of_none fun opened => (hsticks opened).behind
      (.single (.paren hskip.symm hopen))⟩

private theorem primary_number {lexeme rest : List Char}
    (hnumber : Lexeme.number? c.rest = some (lexeme, rest)) (f : Furthest) :
    ReadsPrimary c f (primary operand c f) := by
  obtain ⟨-, -, hparen⟩ := Scanner.number_head hnumber
  have hname : Lexeme.identifier? c.rest = none := by
    cases h : Lexeme.identifier? c.rest with
    | none => rfl
    | some found =>
      have h' := Lexeme.number?_eq_none_of_identifier? (Option.isSome_of_eq_some h)
      rw [hnumber] at h'
      cases h'
  have hout : primary operand c f = (some ([c.branch (c.after lexeme rest) .primary
      [c.branch (c.after lexeme rest) .number [c.leaf .numberLiteral lexeme rest]]],
      c.after lexeme rest), f.push c.offset [.openParen, .identifier]) := by
    rw [primary_eq]
    apply rule_eq_some
    rw [orElse_eq_right (group_eq_none hparen (expression operand) f),
      orElse_eq_right (andThen_eq_none_left (identifier_eq_none hname)), Furthest.push_push]
    exact orElse_eq_left (number_eq_some hnumber)
  have hderives := Derives.number hnumber
  rw [hout]
  exact ⟨_, _, rfl, hderives,
    (Furthest.Leaves.push_self f c.offset _).of_lt (hderives.offset_lt rfl)⟩

/-- A name in front of a bracket is read with its index, or matched without it where the scan
sticks inside the brackets. -/
private theorem primary_indexed (hinner : SettlesBelow .expression bound (expression operand))
    {lexeme rest inner : List Char} (hname : Lexeme.identifier? c.rest = some (lexeme, rest))
    (hoffset : c.offset < (c.after lexeme rest).skipLayout.offset)
    (hopen : (c.after lexeme rest).skipLayout.rest = '[' :: inner) (hbound : inner.length < bound)
    (f : Furthest) :
    ReadsPrimary c f (primary operand c f) ∨ StraysInside c f (primary operand c f) := by
  rcases hindex : indexing (expression operand) (c.after lexeme rest).skipLayout
    (f.push c.offset [.openParen]) with ⟨found, f₂⟩
  rcases enclosed_settles hinner hopen hbound .square hindex with
    ⟨tree, e, outer, rfl, hderives, hclose, rules, hleaves⟩ | ⟨place, failed, heq, hplace, hsticks⟩
  · have hindexed := Derives.indexed hname rfl hopen hderives hclose
    have hend := (e.skipLayout.offset_lt_after ']' [] outer).trans_le
      (Cursor.offset_le_skipLayout _)
    have hopened := (Furthest.Leaves.push_self f c.offset [.openParen]).of_lt
      (hindexed.offset_lt rfl)
    rw [primary_eq_indexed hname hindex]
    refine .inl ⟨_, _, rfl, hindexed, ?_⟩
    simpa [failedBehind, Cursor.token, Bracket.closing, Bracket.closingRule] using
      hopened.trans (hleaves.of_lt hend)
  · obtain ⟨rfl, rfl⟩ := Prod.mk.inj heq
    obtain ⟨hskip, -, -⟩ := Scanner.name_head hname
    rw [primary_eq_bare hname (hoffset.trans hplace) hindex]
    refine .inr ⟨place, failed, hoffset.trans hplace, fun opened => ?_, rfl, ?_⟩
    · have hstep : Step ⟨.operand, opened, c⟩ _ _ := .indexed hskip.symm hname rfl hopen
      exact (hsticks opened).behind (.single hstep)
    · rintro trees stop ⟨⟩
      exact ⟨hplace, .inr (by rw [hopen]; rfl)⟩

private theorem primary_name (hinner : SettlesBelow .expression bound (expression operand))
    (hbound : c.rest.length ≤ bound) {lexeme rest : List Char}
    (hname : Lexeme.identifier? c.rest = some (lexeme, rest)) (f : Furthest) :
    ReadsPrimary c f (primary operand c f) ∨ StraysInside c f (primary operand c f) := by
  obtain ⟨htext, a, more, rfl, -⟩ := Lexeme.identifier?_eq_some hname
  have hoffset := (c.offset_lt_after a more rest).trans_le (Cursor.offset_le_skipLayout _)
  by_cases hopen : (c.after (a :: more) rest).skipLayout.rest.head? = some '['
  · obtain ⟨inner, hinside⟩ := List.head?_eq_some_iff.mp hopen
    have hlength := (Cursor.passes_after htext).length_eq
    have hlength' := (c.after (a :: more) rest).length_skipLayout_le
    rw [hinside] at hlength'
    simp only [List.length_cons, Cursor.after_rest] at hlength hlength'
    exact primary_indexed hinner hname hoffset hinside (by omega) f
  · have hindex := indexing_eq_none hopen (expression operand) (f.push c.offset [.openParen])
    rw [primary_eq_bare hname hoffset hindex]
    exact .inl ⟨_, _, rfl, .name hname hopen, .push_self f _ _⟩

/-- Where no symbol stands before an operand, a primary is read, or the matching strays, or there
is no operand. -/
theorem primary_settles (hinner : SettlesBelow .expression bound (expression operand))
    (hbound : c.rest.length ≤ bound) (hskip : c.skipLayout = c)
    (hsymbol : Symbol.unaryAt? c.rest = none) (f : Furthest) :
    ReadsPrimary c f (primary operand c f) ∨ StraysInside c f (primary operand c f) ∨
      primary operand c f = (none, f.push c.offset [.primary]) ∧
        ∀ opened, Scanner.next? ⟨.operand, opened, c⟩ = none := by
  by_cases hopen : c.rest.head? = some '('
  · obtain ⟨rest, hrest⟩ := List.head?_eq_some_iff.mp hopen
    rw [hrest, List.length_cons] at hbound
    exact (primary_paren hinner hrest hbound f).imp_right .inl
  · have hparen := Lexeme.exactly?_eq_none hopen
    cases hnumber : Lexeme.number? c.rest with
    | some found => exact .inl (primary_number hnumber f)
    | none =>
      cases hname : Lexeme.identifier? c.rest with
      | some found => exact (primary_name hinner hbound hname f).imp_right .inl
      | none =>
        refine .inr (.inr ⟨primary_eq_none hnumber hname hparen f, fun opened => ?_⟩)
        simp only [Scanner.next?, hskip, Scanner.operand?, hsymbol, hparen, hnumber, hname]

end primary

/-- An operand without a symbol before it is a primary. -/
private theorem unary_of_primary {level : Nat}
    (hinner : SettlesBelow .expression level (expression (unary level)))
    (hbound : c.rest.length ≤ level) (hskip : c.skipLayout = c)
    (hsymbol : Symbol.unaryAt? c.rest = none) (f : Furthest) :
    Settles .operand c f none (unary (level + 1) c f) := by
  have hbody : orElse (andThen unaryOperator (unary level)) (primary (unary level)) c f =
      primary (unary level) c (f.push c.offset [.unaryOperator]) :=
    orElse_eq_right (andThen_eq_none_left (unaryOperator_eq_none hsymbol f))
  have hprimary := primary_settles hinner hbound hskip hsymbol (f.push c.offset [.unaryOperator])
  rcases hrun : primary (unary level) c (f.push c.offset [.unaryOperator]) with ⟨found, f₁⟩
  rw [hrun] at hbody hprimary
  rcases hprimary with ⟨children, stop, rfl, hderives, hleaves⟩ |
    ⟨place, failed, hplace, hsticks, rfl, hmatch⟩ | ⟨heq, hnone⟩
  · have hout : unary (level + 1) c f = _ := rule_eq_some hbody
    have hfirst := (Furthest.Leaves.push_self f c.offset [.unaryOperator]).of_lt
      (hderives.offset_lt rfl)
    rw [hout]
    refine .inl ⟨_, stop, rfl, hderives, ?_, by simpa [Part.reach] using hfirst.trans hleaves⟩
    rintro ⟨s, rest, -, t, ht, -⟩
    cases ht
  · rw [f.push_of_lt _ _ hplace] at hbody
    have hstrays : StraysAt .operand c f (found, f.push place failed) place failed :=
      ⟨hsticks, rfl, hmatch⟩
    rw [← hbody] at hstrays
    exact .inr ⟨place, failed, hstrays.in_rule .operand rfl rfl .unary⟩
  · rw [heq, Furthest.push_push] at hbody
    have hout : unary (level + 1) c f = _ := rule_eq_none_several hbody (by decide)
    rw [hout]
    refine .inr ⟨c.offset, _, .of_none fun opened => ?_⟩
    have hsticks := Sticks.operand (.refl _) (hnone opened)
    rwa [hskip] at hsticks

/-- Where a symbol stands before an operand that fails, no primary is tried with success. -/
theorem unary_eq_none {level : Nat} {s : Symbol} {rest : List Char}
    (hsymbol : Symbol.unaryAt? c.rest = some (s, rest)) {place : Nat} {failed : List Rule}
    (hsigned : andThen unaryOperator (unary level) c f = (none, f.push place failed))
    (hplace : c.offset < place) : unary (level + 1) c f = (none, f.push place failed) := by
  have hparen : Lexeme.exactly? ['('] c.rest = none := by
    apply Lexeme.exactly?_eq_none
    intro hhead
    obtain ⟨more, hmore⟩ := List.head?_eq_some_iff.mp hhead
    rw [hmore, Symbol.unaryAt?_eq_none (by simp)] at hsymbol
    cases hsymbol
  obtain ⟨hnumber, hname⟩ := Scanner.word?_eq_none (c := c) (.inl (by simp [hsymbol]))
  have hgroup := group_eq_none hparen (expression (unary level)) (f.push place failed)
  rw [f.push_behind _ _ hplace] at hgroup
  have hprimary := primary_eq_none_behind hnumber hname hgroup hplace
  exact rule_eq_none_behind ((orElse_eq_right hsigned).trans hprimary) hplace

/-- An operand with a symbol before it is one of the level below. -/
private theorem unary_of_symbol {level : Nat} (hoperand : SettlesBelow .operand level (unary level))
    (hbound : c.rest.length ≤ level) {s : Symbol} {rest : List Char}
    (hsymbol : Symbol.unaryAt? c.rest = some (s, rest)) (f : Furthest) :
    Settles .operand c f none (unary (level + 1) c f) := by
  have hskip := Scanner.skipLayout_of_unaryAt? hsymbol
  have hlength := (Cursor.passes_after (Symbol.append_of_unaryAt? hsymbol)).length_eq
  have hpos : 0 < s.text.length := List.length_pos_iff.mpr s.text_ne_nil
  have hlength' := (c.after s.text rest).length_skipLayout_le
  have hstep : ∀ opened, Step ⟨.operand, opened, c⟩ _ _ := fun opened => .sign hskip.symm hsymbol
  obtain ⟨f₁, rules, hf₁, hleaves₁⟩ := unaryOperator_eq_some hsymbol f
  have hsettles := hoperand (c.after s.text rest).skipLayout f₁ (by omega)
    (Cursor.skipLayout_skipLayout _)
  rcases hrun : unary level (c.after s.text rest).skipLayout f₁ with ⟨found, f₂⟩
  rw [hrun] at hsettles
  rcases hsettles with ⟨trees, stop, rfl, hderives, hfollows, hleaves⟩ |
    ⟨place, failed, hsticks, rfl, hmatch⟩
  · obtain ⟨tree, rfl⟩ := hderives.exists_eq_singleton rfl
    have hout : unary (level + 1) c f = _ :=
      rule_eq_some (orElse_eq_left (andThen_eq_some hf₁ hrun))
    have hsigned := Derives.signed hsymbol hderives
    obtain ⟨_, -, hreaches⟩ := hderives.reaches []
    have hlast := lastRule?_append_of_ne_nil [c.token (.symbol s) s.text rest] hreaches.ne_nil
    have hall := (hleaves₁.of_lt (hsigned.offset_lt rfl)).trans hleaves
    rw [← hlast] at hall
    rw [hout]
    exact .inl ⟨_, stop, rfl, hsigned, hfollows, by simpa using hall⟩
  · have hplace : c.skipLayout.offset < place := (hsticks []).offset_lt_of_step (hstep [])
    rw [hskip] at hplace
    have hsticks' : ∀ opened, Sticks ⟨.operand, opened, c⟩ place failed := fun opened =>
      (hsticks opened).behind_step (hstep opened)
    have hpush : f₁.push place failed = f.push place failed := hleaves₁.of_lt hplace failed
    rw [hpush] at hrun
    cases found with
    | none =>
      rw [unary_eq_none hsymbol (andThen_eq_none_right hf₁ hrun) hplace]
      exact .inr ⟨place, failed, .of_none hsticks'⟩
    | some found =>
      obtain ⟨trees, stop⟩ := found
      have hout : unary (level + 1) c f = _ :=
        rule_eq_some (orElse_eq_left (andThen_eq_some hf₁ hrun))
      rw [hout]
      refine .inr ⟨place, failed, hsticks', rfl, ?_⟩
      rintro trees' stop' ⟨⟩
      exact hmatch trees stop rfl

/-- An operand with a symbol before it is one of the level below, and without a symbol it is a
primary. -/
theorem unary_settles {level : Nat}
    (hinner : SettlesBelow .expression level (expression (unary level)))
    (hoperand : SettlesBelow .operand level (unary level)) :
    SettlesBelow .operand (level + 1) (unary (level + 1)) := by
  intro c f hbound hskip
  cases hsymbol : Symbol.unaryAt? c.rest with
  | none => exact unary_of_primary hinner (Nat.le_of_lt_succ hbound) hskip hsymbol f
  | some found => exact unary_of_symbol hoperand (Nat.le_of_lt_succ hbound) hsymbol f

end Reckon.Grammar
