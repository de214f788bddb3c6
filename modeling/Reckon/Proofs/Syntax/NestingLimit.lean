import Reckon.Proofs.Expression.Denotation
import Reckon.Proofs.Grammar.Nesting
import Reckon.Proofs.Syntax.Depth

/-!
What the nesting limit bounds. A text is read within a limit when the levels
counted around its tokens are. The levels that really stand around a token are
bounded by the limit only together with those dropped on the way to it: a sign
before the name of an index is a level around all that is in the brackets, and
the scan no longer counts it there.
-/

namespace Reckon

open Grammar ParseTree

/-- The text from one cursor to another leads from one state of the nesting to another. -/
def Grammar.Cursor.Nests (c : Cursor) (s : Nesting) (stop : Cursor) (s' : Nesting)
    (allows : Nat → Prop) : Prop :=
  ∃ text, c.Passes text stop ∧ s.Leads text s' allows

namespace Grammar.Cursor

variable {c d e : Cursor} {s s' s'' : Nesting} {allows allows' : Nat → Prop}

theorem Nests.trans (h : c.Nests s d s' allows) (h' : d.Nests s' e s'' allows') :
    c.Nests s e s'' fun limit => allows limit ∧ allows' limit := by
  obtain ⟨text, hpass, hleads⟩ := h
  obtain ⟨text', hpass', hleads'⟩ := h'
  exact ⟨text ++ text', hpass.trans hpass', hleads.trans hleads'⟩

theorem Nests.before (h : c.Nests s d s' fun _ => True) (h' : d.Nests s' e s'' allows) :
    c.Nests s e s'' allows := by
  obtain ⟨text, hpass, hleads⟩ := h
  obtain ⟨text', hpass', hleads'⟩ := h'
  exact ⟨text ++ text', hpass.trans hpass', hleads.before hleads'⟩

theorem Nests.congr (h : c.Nests s d s' allows)
    (hiff : ∀ limit, s.depth ≤ limit → (allows limit ↔ allows' limit)) :
    c.Nests s d s' allows' := by
  obtain ⟨text, hpass, hleads⟩ := h
  exact ⟨text, hpass, hleads.congr hiff⟩

theorem nests_after {lexeme rest : List Char} (h : c.rest = lexeme ++ rest)
    (hleads : s.Leads lexeme s' allows) : c.Nests s (c.after lexeme rest) s' allows :=
  ⟨lexeme, passes_after h, hleads⟩

theorem nests_skipLayout (c : Cursor) (s : Nesting) :
    c.Nests s c.skipLayout s fun _ => True := by
  obtain ⟨layout, hlayout, hpass⟩ := c.passes_skipLayout
  exact ⟨layout, hpass, Nesting.leads_layout hlayout s⟩

/-- A stretch of text in brackets, with layout inside them. -/
theorem nests_enclosed {a : Char} {inner outer : List Char} (ha : a = '(' ∨ a = '[')
    (bracket : Bracket) (hopen : c.rest = a :: inner)
    (h : (c.after [a] inner).skipLayout.Nests
      ⟨(s.pending + 1) :: s.opened, s.enclosing + (s.pending + 1), 0, true⟩ e
      ⟨(s.pending + 1) :: s.opened, s.enclosing + (s.pending + 1), 0, false⟩ allows)
    (hclose : e.skipLayout.rest = bracket.closing :: outer) :
    c.Nests s (e.skipLayout.after [bracket.closing] outer) s.settled
      fun limit => s.enclosing + (s.pending + 1) ≤ limit ∧ allows limit := by
  obtain ⟨layout, hlayout, hpass⟩ := (c.after [a] inner).passes_skipLayout
  obtain ⟨text, hpass', hleads⟩ := h
  obtain ⟨layout', hlayout', hpass''⟩ := e.passes_skipLayout
  refine ⟨_, (passes_after_cons hopen).trans
    (((hpass.trans hpass').trans hpass'').trans (passes_after_cons hclose)), ?_⟩
  have hinside := ((Nesting.leads_layout hlayout _).before hleads).behind
    (Nesting.leads_layout hlayout' _)
  exact Nesting.leads_enclosed ha bracket hinside

end Grammar.Cursor

/-- The state of a scan of the text with these levels around it. -/
def Levels.state (l : Levels) (opened : List Nat) (expectsOperand : Bool) : Nesting :=
  ⟨opened, l.enclosing, l.pending, expectsOperand⟩

theorem Levels.settled_state {l : Levels} (h : l.pending = 0) (opened : List Nat) :
    (l.state opened false).settled = l.state opened false := by
  simp [state, Nesting.settled, h]

/-- A derived stretch of text fits into just the limits that the levels counted around the tokens
of its trees are within. Behind it the state is that before it, without the signs. -/
theorem Grammar.Derives.nests {t : SyntaxTree} {isNumber : Place → Bool} {p : Part}
    {c stop : Cursor} {trees : List ParseTree} (h : Derives p c trees stop) {l : Levels}
    (hl : p = .operand ∨ l.pending = 0) {counts : Bool} {ids : List Place}
    (hstand : StandAt t isNumber counts trees ids) (opened : List Nat) :
    c.Nests (l.state opened (p.expecting = .operand)) stop (l.state opened false).settled
      fun limit => ∀ id ∈ ids, t.CountedWithin limit l id := by
  induction h generalizing l counts ids opened with
  | @number c lexeme rest hnumber =>
    obtain ⟨hform, htext⟩ := Lexeme.isNumber_of_number? hnumber
    obtain ⟨id, _, p, _, cs, rfl, hid, hp, hcs⟩ := exists_of_standAt_atom hstand
    obtain ⟨n, _, rfl, ⟨ls, hn, -, x, _, rfl, ⟨hx, -⟩, rfl⟩, rfl⟩ := hcs
    refine (Cursor.nests_after htext (Nesting.leads_number hform _)).congr ?_
    intro limit hlimit
    rw [List.forall_mem_singleton, SyntaxTree.countedWithin_single hid,
      SyntaxTree.countedWithin_single hp, SyntaxTree.countedWithin_single hn,
      SyntaxTree.countedWithin_token hx]
    exact iff_of_true trivial hlimit
  | @name c lexeme rest hname _ =>
    obtain ⟨htext, -⟩ := Lexeme.identifier?_eq_some hname
    obtain ⟨id, _, p, _, cs, rfl, hid, hp, x, _, rfl, ⟨hx, -⟩, rfl⟩ :=
      exists_of_standAt_atom hstand
    refine (Cursor.nests_after htext (Nesting.leads_name hname _)).congr ?_
    intro limit hlimit
    rw [List.forall_mem_singleton, SyntaxTree.countedWithin_single hid,
      SyntaxTree.countedWithin_single hp, SyntaxTree.countedWithin_token hx]
    exact iff_of_true trivial hlimit
  | @indexed c d e lexeme rest inner outer index hname hd hopen _ hclose ih =>
    obtain ⟨htext, -⟩ := Lexeme.identifier?_eq_some hname
    obtain ⟨id, _, p, _, cs, rfl, hid, hp, hcs⟩ := exists_of_standAt_atom hstand
    obtain ⟨b, _, rfl, ⟨hb, -⟩, o, _, rfl, ⟨ho, -⟩, x, _, rfl, hx, k, _, rfl, ⟨hk, -⟩, rfl⟩ := hcs
    have hindex := ih (l := l.indexed) (.inr rfl) ⟨x, [], rfl, hx, rfl⟩ (1 :: opened)
    -- behind the name no sign is pending, so the bracket is all that the scan counts
    have hbrackets := Cursor.nests_enclosed (s := (l.state opened false).settled) (.inr rfl) .square
      hopen hindex hclose
    have hword := Cursor.nests_after htext (Nesting.leads_name hname (l.state opened true))
    subst hd
    refine (hword.before ((Cursor.nests_skipLayout _ _).before hbrackets)).congr ?_
    intro limit hlimit
    rw [List.forall_mem_singleton, List.forall_mem_singleton, SyntaxTree.countedWithin_single hid,
      SyntaxTree.countedWithin_index hp hb ho hk]
    exact (and_iff_right hlimit).symm
  | @group c e inner outer tree hopen _ hclose ih =>
    obtain ⟨id, _, p, _, cs, rfl, hid, hp, hcs⟩ := exists_of_standAt_atom hstand
    obtain ⟨o, _, rfl, ⟨ho, -⟩, x, _, rfl, hx, k, _, rfl, ⟨hk, -⟩, rfl⟩ := hcs
    have hinner := ih (l := l.grouped) (.inr rfl) ⟨x, [], rfl, hx, rfl⟩ ((l.pending + 1) :: opened)
    have hparens := Cursor.nests_enclosed (s := l.state opened true) (.inl rfl) .paren hopen hinner
      hclose
    refine hparens.congr ?_
    intro limit _
    rw [List.forall_mem_singleton, List.forall_mem_singleton, SyntaxTree.countedWithin_single hid,
      SyntaxTree.countedWithin_group hp ho hk]
    rfl
  | @signed c stop s rest tree hsymbol _ ih =>
    obtain ⟨op, rfl⟩ := exists_unaryOperator hsymbol
    obtain ⟨id, _, rfl, ⟨cs, hid, -, o, _, rfl, ho, y, _, rfl, hy, rfl⟩, rfl⟩ := hstand
    obtain ⟨_, token, _, hoperator, htoken, -⟩ := exists_of_standAt_operator rfl ho
    have hlength : op.symbol.text.length = (String.ofList op.symbol.text).length - 1 + 1 := by
      cases op <;> rfl
    have hoperand := ih (l := l.signed ((String.ofList op.symbol.text).length - 1)) (.inl rfl)
      ⟨y, [], rfl, hy, rfl⟩ opened
    have hsign := Nesting.leads_unary op opened l.enclosing l.pending
    rw [hlength] at hsign
    have hstart := Cursor.nests_after (Symbol.append_of_unaryAt? hsymbol) hsign
    refine (hstart.trans ((Cursor.nests_skipLayout _ _).before hoperand)).congr ?_
    intro limit _
    rw [List.forall_mem_singleton, List.forall_mem_singleton,
      SyntaxTree.countedWithin_signed hid hoperator htoken]
    rfl
  | bare _ ih => exact ih (.inr (hl.resolve_left nofun)) hstand opened
  | @tier c d stop tr tighter tree trees _ _ ihFirst ihRounds =>
    have hpending := hl.resolve_left nofun
    obtain ⟨id, _, rfl, ⟨cs, hid, -, x, _, rfl, hx, many, _, rfl, ⟨ids, hmany, heven, hids⟩, rfl⟩,
      rfl⟩ := hstand
    have hfirst := ihFirst (.inr hpending) ⟨x, [], rfl, hx, rfl⟩ opened
    have hrounds := ihRounds (.inr hpending) hids opened
    rw [Levels.settled_state hpending] at hfirst
    refine (hfirst.trans ((Cursor.nests_skipLayout _ _).before hrounds)).congr ?_
    intro limit _
    have htier : t.CountedWithin limit l id ↔ t.CountedWithin limit l x ∧
        ∀ child ∈ (shape (.repetition tr) ids).children, t.CountedWithin limit l child :=
      SyntaxTree.countedWithin_tier hid hmany
    rw [children_shape heven] at htier
    rw [List.forall_mem_singleton, List.forall_mem_singleton, htier]
  | done c =>
    have hpending := hl.resolve_left nofun
    obtain rfl : ids = [] := hstand
    rw [Levels.settled_state hpending]
    exact ⟨[], .refl c, (Nesting.leads_nil _).congr fun _ _ => by simp⟩
  | @round c d e stop tr tighter s rest tree trees hd hsymbol hs _ _ ihOperand ihRounds =>
    have hpending := hl.resolve_left nofun
    obtain ⟨op, rfl, rfl⟩ := exists_binaryOperator hs
    obtain ⟨o, _, rfl, ho, x, more, rfl, hx, hmore⟩ := hstand
    obtain ⟨_, token, _, hoperator, htoken, -⟩ := exists_of_standAt_operator rfl ho
    have hoperand := ihOperand (.inr hpending) ⟨x, [], rfl, hx, rfl⟩ opened
    have hrounds := ihRounds (.inr hpending) hmore opened
    have hop := Nesting.leads_binary op (l.state opened false)
    rw [Levels.settled_state hpending] at hoperand hop
    have hstart := Cursor.nests_after (Symbol.append_of_binaryAt? hsymbol) hop
    subst hd
    refine ((Cursor.nests_skipLayout _ _).before (hstart.before
      (((Cursor.nests_skipLayout _ _).before hoperand).trans hrounds))).congr ?_
    intro limit hlimit
    rw [List.forall_mem_singleton, List.forall_mem_cons, List.forall_mem_cons,
      SyntaxTree.countedWithin_single hoperator, SyntaxTree.countedWithin_token htoken]
    exact (and_iff_right hlimit).symm
  | expression _ ih =>
    obtain ⟨id, _, rfl, ⟨cs, hid, -, x, _, rfl, hx, rfl⟩, rfl⟩ := hstand
    have htiers := ih (.inr (hl.resolve_left nofun)) ⟨x, [], rfl, hx, rfl⟩ opened
    refine htiers.congr ?_
    intro limit _
    rw [List.forall_mem_singleton, List.forall_mem_singleton, SyntaxTree.countedWithin_single hid]

namespace SyntaxTree

variable {source : String} {limit : Nat} {t : SyntaxTree}

/-- The nesting of a text that was read is within the limits that the levels counted around its
tokens are within. -/
theorem IsOf.exists_deepest_eq_ok_iff {tree : ParseTree} (h : t.IsOf tree source) (limit : Nat) :
    (∃ nesting, Nesting.deepest limit source.toList = .ok nesting) ↔
      ∀ l id, t.TokenAt l id → l.counted ≤ limit := by
  obtain ⟨stop, hderives, hend⟩ := h.derives
  have hexpression := hderives.nests (l := .outside) (.inr rfl)
    ⟨t.root, [], rfl, h.standsAt h.countsNumbers, rfl⟩ []
  obtain ⟨text, ⟨hrest, -⟩, hleads⟩ := (Cursor.nests_skipLayout _ _).before
    (hexpression.trans (Cursor.nests_skipLayout stop _))
  have htext : source.toList = text := by
    rw [hend, List.append_nil] at hrest
    exact hrest
  have hfits : Nesting.Fits limit .start text ↔
      (∀ id ∈ [t.root], t.CountedWithin limit .outside id) ∧ True :=
    hleads.2 limit (Nat.zero_le _)
  rw [List.forall_mem_singleton, and_true] at hfits
  rw [Nesting.exists_deepest_eq_ok_iff, htext]
  constructor
  · intro hsource l id htoken
    exact hfits.mp hsource l id htoken.1 htoken.2
  · intro hcounted
    exact hfits.mpr fun l id hunder htoken => hcounted l id ⟨hunder, htoken⟩

/-- A text that some limit admits is read just within the limits of the levels counted around its
tokens. A limit bounds the levels around a token together with those dropped on the way to it. It
bounds the levels alone, whatever the limit is, just when no token has more levels around it than
are counted around some token. -/
theorem limit_bounds_counted (h : parse source limit = .ok t) :
    (∀ limit', (∃ t', parse source limit' = .ok t') ↔ ∀ l id, t.TokenAt l id → l.counted ≤ limit') ∧
      (∀ limit' t', parse source limit' = .ok t' →
        ∀ l id, t'.TokenAt l id → l.around ≤ limit' + l.dropped) ∧
      ((∀ limit' t', parse source limit' = .ok t' → ∀ l id, t'.TokenAt l id → l.around ≤ limit') ↔
        ∀ l id, t.TokenAt l id → ∃ l' id', t.TokenAt l' id' ∧ l.around ≤ l'.counted) := by
  obtain ⟨tree, hof⟩ := isOf_of_parse h
  have hiff : ∀ limit', (∃ t', parse source limit' = .ok t') ↔
      ∀ l id, t.TokenAt l id → l.counted ≤ limit' := by
    intro limit'
    rw [← hof.exists_deepest_eq_ok_iff]
    constructor
    · rintro ⟨t', ht'⟩
      exact exists_deepest_of_parse ht'
    · rintro ⟨nesting, hnesting⟩
      exact ⟨t, parse_of_deepest h hnesting⟩
  have hsame : ∀ limit' t', parse source limit' = .ok t' → t' = t := by
    intro limit' t' ht'
    obtain ⟨nesting, hnesting⟩ := exists_deepest_of_parse ht'
    have hparse := parse_of_deepest h hnesting
    rw [ht'] at hparse
    cases hparse
    rfl
  refine ⟨hiff, ?_, ?_⟩
  · intro limit' t' ht' l id htoken
    obtain rfl := hsame limit' t' ht'
    have hcounted := (hiff limit').mp ⟨_, ht'⟩ l id htoken
    exact htoken.around_le.trans (Nat.add_le_add_right hcounted _)
  · constructor
    · intro hbounds l id htoken
      by_contra hnone
      simp only [not_exists, not_and, Nat.not_le] at hnone
      -- the least limit below the levels of the token would admit the text
      have hread := (hiff (l.around - 1)).mpr fun l' id' htoken' =>
        Nat.le_sub_one_of_lt (hnone l' id' htoken')
      obtain ⟨t', ht'⟩ := hread
      obtain rfl := hsame _ t' ht'
      have hlt := hnone l id htoken
      have hle := hbounds _ _ ht' l id htoken
      omega
    · intro hcovered limit' t' ht' l id htoken
      obtain rfl := hsame limit' t' ht'
      obtain ⟨l', id', htoken', hle⟩ := hcovered l id htoken
      exact hle.trans ((hiff limit').mp ⟨_, ht'⟩ l' id' htoken')

private theorem exists_parse_indexed_sign :
    ∃ t, parse "-a[1]" 1 = .ok t ∧
      ∃ token ∈ t.tokensBelow t.size .outside t.root, 1 < token.1.around := by
  have hcheck : (match parse "-a[1]" 1 with
      | .ok t => (t.tokensBelow t.size .outside t.root).any fun token => 1 < token.1.around
      | .error _ => false) = true := by decide +kernel
  cases h : parse "-a[1]" 1 with
  | error error =>
    rw [h] at hcheck
    cases hcheck
  | ok t =>
    rw [h] at hcheck
    exact ⟨t, rfl, by simpa using hcheck⟩

/-- In the index of a signed name the scan counts one level. -/
theorem counted_le_one_of_indexed_sign :
    ∃ t, parse "-a[1]" 1 = .ok t ∧ ∀ l id, t.TokenAt l id → l.counted ≤ 1 := by
  obtain ⟨t, ht, -⟩ := exists_parse_indexed_sign
  exact ⟨t, ht, ((limit_bounds_counted ht).1 1).mp ⟨t, ht⟩⟩

/-- Two levels stand around it, so the limit does not bound the levels around a token. -/
theorem not_limit_bounds_around :
    ¬∀ source limit t, parse source limit = .ok t →
      ∀ l id, t.TokenAt l id → l.around ≤ limit := by
  intro hbounds
  obtain ⟨t, ht, ⟨l, id⟩, htoken, hlt⟩ := exists_parse_indexed_sign
  have hle := hbounds _ _ t ht l id (under_of_mem_tokensBelow htoken)
  exact absurd hlt (Nat.not_lt.mpr hle)

end SyntaxTree

end Reckon
