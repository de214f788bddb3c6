import Reckon.Proofs.Grammar.Respacing
import Reckon.Proofs.Grammar.Settling.Text

/-!
How a text can go on. Behind a beginning of a text the scan stands in the same
state whatever follows, unless the last lexeme goes on with it. So the texts
that make an accepted one out of the beginning are those that bring the scan
from this state to its end.
-/

namespace Reckon.Grammar

/-- The grammar accepts a whole text, however deep it nests. -/
def Accepts (text : List Char) : Prop := ∃ trees, Grammar.run .main text = .ok trees

namespace Scanner

/-- The scan from here on comes to the end of its text with nothing open. -/
def Completes (s : Scanner) : Prop := s.run.stuckAt? = none

variable {c : Cursor} {opened : List Bracket}

theorem not_completes {s : Scanner} (hnone : s.next? = none) (hdone : s.isDone = false) :
    ¬ s.Completes := by
  simp [Completes, run_of_next?_eq_none hnone, hdone]

/-- Closing brackets are neither layout nor parts of words. -/
theorem closing_head (opened : List Bracket) : ∀ a ∈ (opened.map Bracket.closing).head?,
    isLayout a = false ∧ Lexeme.isWord a = false := by
  intro a ha
  cases opened with
  | nil => cases ha
  | cons bracket opened =>
    cases ha
    cases bracket <;> exact ⟨rfl, rfl⟩

/-- Behind an operand the brackets that close the open ones complete a scan. -/
theorem completes_closing (h : c.skipLayout.rest = opened.map Bracket.closing) :
    Completes ⟨.operator, opened, c⟩ := by
  induction opened generalizing c with
  | nil =>
    have hrest : c.skipLayout.rest = [] := h
    have hnone : next? ⟨.operator, [], c⟩ = none :=
      operator?_eq_none (by rw [hrest]; rfl) (by simp)
    rw [Completes, run_of_next?_eq_none hnone]
    simp [isDone, hrest]
  | cons bracket opened ih =>
    rw [Completes, run_of_closing opened bracket h, Scan.after_stuckAt?]
    apply ih
    rw [Cursor.skipLayout_eq_self fun a ha => (closing_head opened a ha).1, Cursor.after_rest]

/-- A number and the closing brackets complete a scan that waits for an operand. -/
theorem completes_number (h : c.skipLayout.rest = '1' :: opened.map Bracket.closing) :
    Completes ⟨.operand, opened, c⟩ := by
  have hone : Lexeme.IsNumber ['1'] :=
    (Lexeme.isNumber_of_number? (by rfl : Lexeme.number? ['1'] = some (['1'], []))).1
  have hnumber := Lexeme.number?_append hone fun a ha => (closing_head opened a ha).2
  rw [List.singleton_append, ← h] at hnumber
  have hstep : Step ⟨.operand, opened, c⟩ _ _ := .number rfl hnumber
  rw [Completes, run_of_next? hstep.next?, Scan.after_stuckAt?]
  apply completes_closing
  rw [Cursor.skipLayout_eq_self fun a ha => (closing_head opened a ha).1, Cursor.after_rest]

/-- An operator with a number behind it and the closing brackets complete a scan behind an
operand. -/
theorem completes_product
    (h : c.skipLayout.rest = '*' :: ' ' :: '1' :: opened.map Bracket.closing) :
    Completes ⟨.operator, opened, c⟩ := by
  have hsymbol : Symbol.binaryAt? c.skipLayout.rest =
      some (.mul, ' ' :: '1' :: opened.map Bracket.closing) := by
    rw [h]
    rfl
  have hstep : Step ⟨.operator, opened, c⟩ _ _ := .operator rfl hsymbol
  rw [Completes, run_of_next? hstep.next?, Scan.after_stuckAt?]
  exact completes_number rfl

/-- An index behind a name and the closing brackets complete a scan that waits for an operand. -/
theorem completes_indexed {lexeme rest layout : List Char} {text : List Char}
    (hname : Lexeme.identifier? text = some (lexeme, rest))
    (hlayout : ∀ a ∈ layout, isLayout a = true)
    (h : c.skipLayout.rest =
      lexeme ++ (layout ++ '[' :: '1' :: (Bracket.square :: opened).map Bracket.closing)) :
    Completes ⟨.operand, opened, c⟩ := by
  obtain ⟨-, a, more, rfl, hstart, hmore⟩ := Lexeme.identifier?_eq_some hname
  generalize hinner : '1' :: (Bracket.square :: opened).map Bracket.closing = inner at h
  have hhead : ∀ b ∈ (layout ++ '[' :: inner).head?, Lexeme.isWord b = false := by
    intro b hb
    cases layout with
    | nil =>
      cases hb
      rfl
    | cons _ _ =>
      cases hb
      exact isWord_eq_false_of_isLayout (hlayout _ List.mem_cons_self)
  have hname' := Lexeme.identifier?_append hstart hmore hhead
  rw [← h] at hname'
  have hopen : (c.skipLayout.after (a :: more) (layout ++ '[' :: inner)).skipLayout.rest =
      '[' :: inner := by
    rw [Cursor.skipLayout, Cursor.after_rest, Cursor.after_rest,
      List.dropWhile_append_of_pos hlayout]
    rfl
  have hstep : Step ⟨.operand, opened, c⟩ _ _ := .indexed rfl hname' rfl hopen
  rw [Completes, run_of_next? hstep.next?, Scan.after_stuckAt?]
  apply completes_number
  rw [Cursor.skipLayout_eq_self, Cursor.after_rest, hinner]
  rw [Cursor.after_rest, ← hinner]
  intro b hb
  cases hb
  rfl

/-- No operand starts with one of these characters. -/
theorem not_completes_operand (h : ∀ a ∈ c.skipLayout.rest.head?, a ∈ ['*', ')', ']', '[']) :
    ¬ Completes ⟨.operand, opened, c⟩ := by
  have hne : ∀ {b : Char}, b ∉ ['*', ')', ']', '['] → c.skipLayout.rest.head? ≠ some b :=
    fun hb hhead => hb (h _ hhead)
  have hsymbol : Symbol.unaryAt? c.skipLayout.rest = none := by
    refine Symbol.unaryAt?_eq_none fun a ha => ?_
    exact ⟨fun heq => hne (by decide) (heq ▸ ha), fun heq => hne (by decide) (heq ▸ ha),
      fun heq => hne (by decide) (heq ▸ ha)⟩
  have hparen : Lexeme.exactly? ['('] c.skipLayout.rest = none :=
    Lexeme.exactly?_eq_none (hne (by decide))
  have hword : ∀ a ∈ c.skipLayout.rest.head?, Lexeme.isWord a = false := by
    intro a ha
    have hmem := h a ha
    simp only [List.mem_cons, List.not_mem_nil, or_false] at hmem
    rcases hmem with rfl | rfl | rfl | rfl <;> rfl
  obtain ⟨hnumber, hname⟩ := Lexeme.word?_eq_none_of_head hword
  refine not_completes ?_ rfl
  simp only [next?, operand?, hsymbol, hparen, hnumber, hname]

/-- Behind an operand a scan does not come to its end where neither a symbol stands nor the end
that it waits for. -/
theorem not_completes_operator (hsymbol : Symbol.binaryAt? c.skipLayout.rest = none)
    (hclose : ∀ bracket ∈ opened.head?, c.skipLayout.rest.head? ≠ some bracket.closing)
    (hend : opened ≠ [] ∨ c.skipLayout.rest ≠ []) : ¬ Completes ⟨.operator, opened, c⟩ := by
  refine not_completes (operator?_eq_none hsymbol hclose) ?_
  simpa [isDone] using or_iff_not_imp_left.mp hend

/-- Behind an operand neither a number nor an opening bracket takes a scan on. -/
theorem not_completes_operator_of_head {a : Char} {more : List Char}
    (h : c.skipLayout.rest = a :: more) (ha : a = '1' ∨ a = '[') :
    ¬ Completes ⟨.operator, opened, c⟩ := by
  refine not_completes_operator ?_ ?_ (.inr (by simp [h]))
  · rw [h]
    rcases ha with rfl | rfl <;> rfl
  · intro bracket _
    rw [h]
    rcases ha with rfl | rfl <;> cases bracket <;> simp [Bracket.closing]

end Scanner

theorem accepts_iff (text : List Char) : Accepts text ↔ (Scanner.start text).Completes := by
  rcases run_main text with ⟨tree, stop, hrun, -, -, hscan⟩ | ⟨place, failed, hrun, hsticks⟩
  · simp [Accepts, Scanner.Completes, hrun, hscan]
  · simp [Accepts, Scanner.Completes, hrun, hsticks.stuckAt?]

namespace Reaches

variable {source pre layout tail : List Char} {tokens : List Token} {expecting : Expecting}
  {opened : List Bracket} {d : Cursor}

theorem completes_iff {s s' : Scanner} (h : Reaches s tokens s') :
    s.Completes ↔ s'.Completes := by
  rw [Scanner.Completes, h.run, Scan.after_stuckAt?, Scanner.Completes]

/-- The text before the place that a stretch leads to. -/
theorem exists_pre (h : Reaches (.start source) tokens ⟨expecting, opened, d⟩) :
    ∃ pre, source = pre ++ d.skipLayout.rest ∧
      Text.takeBytes? source d.skipLayout.offset = some pre := by
  obtain ⟨text, hpass⟩ := h.passes
  obtain ⟨layout, -, hlayout⟩ := d.passes_skipLayout
  obtain ⟨hsource, hoffset⟩ := hpass.trans hlayout
  replace hsource : source = (text ++ layout) ++ d.skipLayout.rest := hsource
  refine ⟨text ++ layout, hsource, ?_⟩
  rw [hoffset, Scanner.start, Cursor.start, Nat.zero_add, hsource]
  exact Text.takeBytes?_append _ _

/-- With another ending a text is accepted if the scan completes it from the state behind the
beginning. -/
theorem accepts_iff_completes (h : Reaches (.start source) tokens ⟨expecting, opened, d⟩)
    (hsource : source = pre ++ tail) (hd : d.rest = layout ++ tail) {tail' : List Char}
    (htail : Replaces expecting (lastRule? tokens) d.rest (layout ++ tail')) :
    ∃ d' : Cursor, d'.rest = layout ++ tail' ∧
      (Accepts (pre ++ tail') ↔ Scanner.Completes ⟨expecting, opened, d'⟩) := by
  obtain ⟨text, htext, hcut⟩ := h.laid.cut hd
  obtain rfl : pre = text := List.append_cancel_right (hsource.symm.trans htext)
  have hrespaced : Respaced d.rest (layout ++ tail') (lexemesOf tokens) source
      (Cursor.start (pre ++ tail')).rest := hcut tail'
  obtain ⟨tokens', d', hreaches', -, hrest⟩ := h.respaced hrespaced htail
  exact ⟨d', hrest, (accepts_iff _).trans hreaches'.completes_iff⟩

/-- With another ending, which no lexeme before it goes on with, the scan goes on from the state
behind the beginning. -/
theorem accepts_iff_completes_skipLayout
    (h : Reaches (.start source) tokens ⟨expecting, opened, d⟩)
    (hsource : source = pre ++ d.skipLayout.rest) (tail' : List Char)
    (hhead : ∀ a ∈ tail'.head?, isLayout a = true ∨ a ∈ [')', ']', '['])
    (hbracket : lastRule? tokens = some .identifier →
      (tail'.dropWhile isLayout).head? ≠ some '[') :
    ∃ d' : Cursor, d'.skipLayout.rest = tail'.dropWhile isLayout ∧
      (Accepts (pre ++ tail') ↔ Scanner.Completes ⟨expecting, opened, d'⟩) := by
  obtain ⟨layout, hlayout, ⟨hrest, -⟩⟩ := d.passes_skipLayout
  have htail : Replaces expecting (lastRule? tokens) d.rest (layout ++ tail') := by
    refine ⟨.inr fun a ha => ?_, fun hlast => ?_⟩
    · cases layout with
      | nil => exact hhead a ha
      | cons _ _ =>
        cases ha
        exact .inl (hlayout _ List.mem_cons_self)
    · rw [List.dropWhile_append_of_pos hlayout]
      exact hbracket hlast
  obtain ⟨d', hd', hiff⟩ := h.accepts_iff_completes hsource hrest htail
  refine ⟨d', ?_, hiff⟩
  rw [Cursor.skipLayout, Cursor.after_rest, hd', List.dropWhile_append_of_pos hlayout]

/-- The last step of a stretch. -/
theorem exists_last {s s' : Scanner} (h : Reaches s tokens s') :
    tokens = [] ∧ s = s' ∨ ∃ before s₁ last,
      Reaches s before s₁ ∧ Step s₁ last s' ∧ tokens = before ++ last := by
  induction h with
  | refl s => exact .inl ⟨rfl, rfl⟩
  | @step s s' s'' tokens more hstep _ ih =>
    rcases ih with ⟨rfl, rfl⟩ | ⟨before, s₁, last, hbefore, hlast, rfl⟩
    · exact .inr ⟨[], s, tokens, .refl s, hstep, by simp⟩
    · exact .inr ⟨tokens ++ before, s₁, last, .step hstep hbefore, hlast, by simp⟩

/-- A scan that waits for an operand does not stand behind a bare name. -/
theorem lastRule?_ne_identifier {s : Scanner} (h : Reaches s tokens ⟨.operand, opened, d⟩) :
    lastRule? tokens ≠ some .identifier := by
  rcases h.exists_last with ⟨rfl, -⟩ | ⟨before, s₁, last, -, hlast, rfl⟩
  · simp
  · cases hlast <;> simp [Cursor.token]

/-- A bare name is read where the scan waits for an operand. -/
theorem exists_name {s : Scanner} (h : Reaches s tokens ⟨.operator, opened, d⟩)
    (hlast : lastRule? tokens = some .identifier) :
    ∃ before c lexeme rest, Reaches s before ⟨.operand, opened, c⟩ ∧
      Lexeme.identifier? c.skipLayout.rest = some (lexeme, rest) ∧
      d = c.skipLayout.after lexeme rest := by
  rcases h.exists_last with ⟨rfl, -⟩ | ⟨before, s₁, last, hbefore, hstep, rfl⟩
  · cases hlast
  · cases hstep with
    | number => simp [Cursor.token] at hlast
    | name hd hname hbare =>
      subst hd
      exact ⟨before, _, _, _, hbefore, hname, rfl⟩
    | closing bracket => cases bracket <;> simp [Cursor.token, Bracket.closingRule] at hlast

/-- What ends in a bare name, split before the name: the state that waits for it, the layout on
both sides and the text behind. -/
private theorem exists_split_name (h : Reaches (.start source) tokens ⟨.operator, opened, d⟩)
    (hsource : source = pre ++ d.skipLayout.rest)
    (hlast : lastRule? tokens = some .identifier) :
    ∃ before c text gap lexeme rest layout tail,
      Reaches (.start source) before ⟨.operand, opened, c⟩ ∧ source = text ++ c.rest ∧
      c.rest = gap ++ (lexeme ++ (layout ++ tail)) ∧ pre = text ++ (gap ++ (lexeme ++ layout)) ∧
      Lexeme.identifier? c.skipLayout.rest = some (lexeme, rest) ∧
      (∀ a ∈ gap, isLayout a = true) ∧ ∀ a ∈ layout, isLayout a = true := by
  obtain ⟨before, c, lexeme, rest, hbefore, hname, rfl⟩ := h.exists_name hlast
  obtain ⟨text, htext, -⟩ := hbefore.passes
  obtain ⟨gap, hgap, ⟨hgaprest, -⟩⟩ := c.passes_skipLayout
  obtain ⟨layout, hlayout, ⟨hlayoutrest, -⟩⟩ :=
    (c.skipLayout.after lexeme rest).passes_skipLayout
  obtain ⟨hlexeme, -⟩ := Lexeme.identifier?_eq_some hname
  rw [Cursor.after_rest] at hlayoutrest
  generalize (c.skipLayout.after lexeme rest).skipLayout.rest = tail at hsource hlayoutrest
  have hrest : c.rest = gap ++ (lexeme ++ (layout ++ tail)) := by
    rw [hgaprest, hlexeme, hlayoutrest]
  have hwhole : source = text ++ c.rest := htext
  have hpre : pre ++ tail = text ++ (gap ++ (lexeme ++ layout)) ++ tail := by
    rw [← hsource, hwhole, hrest]
    simp
  exact ⟨before, c, text, gap, lexeme, rest, layout, tail, hbefore, hwhole, hrest,
    List.append_cancel_right hpre, hname, hgap, hlayout⟩

/-- Where the scan waits for the name in front, the name may stand with an index. -/
private theorem accepts_indexed {before : List Token} {c : Cursor}
    {text gap lexeme rest : List Char}
    (h : Reaches (.start source) before ⟨.operand, opened, c⟩) (hsource : source = text ++ c.rest)
    (hrest : c.rest = gap ++ (lexeme ++ (layout ++ tail)))
    (hname : Lexeme.identifier? c.skipLayout.rest = some (lexeme, rest))
    (hgap : ∀ a ∈ gap, isLayout a = true) (hlayout : ∀ a ∈ layout, isLayout a = true) :
    Accepts (text ++ (gap ++ (lexeme ++
      (layout ++ '[' :: '1' :: (Bracket.square :: opened).map Bracket.closing)))) := by
  obtain ⟨-, a, part, rfl, hstart, -⟩ := Lexeme.identifier?_eq_some hname
  generalize hmore : '1' :: (Bracket.square :: opened).map Bracket.closing = more
  have hreplaces : Replaces .operand (lastRule? before) c.rest
      ([] ++ (gap ++ (a :: part ++ (layout ++ '[' :: more)))) := by
    refine ⟨.inl ⟨rfl, ?_⟩, fun hlast => absurd hlast h.lastRule?_ne_identifier⟩
    rw [hrest]
    cases gap <;> rfl
  obtain ⟨d', hd', hiff⟩ := h.accepts_iff_completes hsource rfl hreplaces
  apply hiff.mpr
  apply Scanner.completes_indexed hname hlayout
  have hname' : isLayout a = false := Lexeme.isLayout_eq_false_of_isInk (Lexeme.isInk_of_isWord
    (Lexeme.isWord_of_isNameStart hstart))
  rw [Cursor.skipLayout, Cursor.after_rest, hd', List.nil_append,
    List.dropWhile_append_of_pos hgap, hmore, List.cons_append,
    List.dropWhile_cons_of_neg (by simp [hname'])]

section operand

variable (h : Reaches (.start source) tokens ⟨.operand, opened, d⟩)
  (hsource : source = pre ++ d.skipLayout.rest)

include h hsource

/-- Where an operand is missing, a number may follow. -/
theorem exists_accepts_number : ∃ more, Accepts (pre ++ ' ' :: '1' :: more) := by
  obtain ⟨d', hd', hiff⟩ := h.accepts_iff_completes_skipLayout hsource
    (' ' :: '1' :: opened.map Bracket.closing) (by simp [isLayout]) (by simp [isLayout])
  exact ⟨_, hiff.mpr (Scanner.completes_number hd')⟩

/-- Where an operand is missing, neither an operator nor a bracket that closes or opens an index
may follow, nor may the text end. -/
theorem not_accepts_of_head {tail' : List Char}
    (hhead : ∀ a ∈ tail'.head?, isLayout a = true ∨ a ∈ [')', ']', '['])
    (htail : ∀ a ∈ (tail'.dropWhile isLayout).head?, a ∈ ['*', ')', ']', '[']) :
    ¬ Accepts (pre ++ tail') := by
  obtain ⟨d', hd', hiff⟩ := h.accepts_iff_completes_skipLayout hsource tail' hhead
    fun hlast => absurd hlast h.lastRule?_ne_identifier
  rw [hiff]
  exact Scanner.not_completes_operand (hd' ▸ htail)

end operand

section operator

variable (h : Reaches (.start source) tokens ⟨.operator, opened, d⟩)
  (hsource : source = pre ++ d.skipLayout.rest)

include h hsource

/-- Behind an operand another may follow with an operator before it. -/
theorem exists_accepts_product : ∃ more, Accepts (pre ++ ' ' :: '*' :: ' ' :: '1' :: more) := by
  obtain ⟨d', hd', hiff⟩ := h.accepts_iff_completes_skipLayout hsource
    (' ' :: '*' :: ' ' :: '1' :: opened.map Bracket.closing)
    (by simp [isLayout]) (by simp [isLayout])
  exact ⟨_, hiff.mpr (Scanner.completes_product hd')⟩

theorem not_accepts_number (more : List Char) : ¬ Accepts (pre ++ ' ' :: '1' :: more) := by
  obtain ⟨d', hd', hiff⟩ := h.accepts_iff_completes_skipLayout hsource
    (' ' :: '1' :: more) (by simp [isLayout]) (by simp [isLayout])
  rw [hiff]
  exact Scanner.not_completes_operator_of_head hd' (.inl rfl)

/-- Behind an operand the text may end if nothing is open. -/
theorem accepts_pre_iff : Accepts pre ↔ opened = [] := by
  obtain ⟨d', hd', hiff⟩ := h.accepts_iff_completes_skipLayout hsource [] nofun (by simp)
  have hrest : d'.skipLayout.rest = [] := hd'
  rw [List.append_nil] at hiff
  rw [hiff]
  constructor
  · intro hcompletes
    by_contra hopened
    exact Scanner.not_completes_operator (by rw [hrest]; rfl) (by simp [hrest]) (.inl hopened)
      hcompletes
  · rintro rfl
    exact Scanner.completes_closing hrest

/-- Behind an operand the innermost bracket may be closed, and no other. -/
theorem exists_accepts_closing_iff (bracket : Bracket) :
    (∃ more, Accepts (pre ++ bracket.closing :: more)) ↔ opened.head? = some bracket := by
  have hlayout : isLayout bracket.closing = false := by cases bracket <;> rfl
  have hstate := fun more => h.accepts_iff_completes_skipLayout hsource
    (bracket.closing :: more) (by cases bracket <;> simp [Bracket.closing])
    (by cases bracket <;> simp [Bracket.closing, isLayout])
  constructor
  · rintro ⟨more, hmore⟩
    obtain ⟨d', hd', hiff⟩ := hstate more
    rw [List.dropWhile_cons_of_neg (by simp [hlayout])] at hd'
    by_contra hopened
    refine Scanner.not_completes_operator ?_ ?_ (.inr (by simp [hd'])) (hiff.mp hmore)
    · rw [hd', Scanner.binaryAt?_closing]
    · rintro next hnext hhead
      rw [hd'] at hhead
      cases next <;> cases bracket <;> simp_all [Bracket.closing]
  · intro hopened
    obtain ⟨outer, rfl⟩ := List.head?_eq_some_iff.mp hopened
    obtain ⟨d', hd', hiff⟩ := hstate (outer.map Bracket.closing)
    rw [List.dropWhile_cons_of_neg (by simp [hlayout])] at hd'
    exact ⟨_, hiff.mpr (Scanner.completes_closing hd')⟩

/-- Behind an operand an index may follow if it is a bare name. -/
theorem exists_accepts_indexed_iff :
    (∃ more, Accepts (pre ++ '[' :: more)) ↔ lastRule? tokens = some .identifier := by
  constructor
  · rintro ⟨more, hmore⟩
    by_contra hlast
    obtain ⟨d', hd', hiff⟩ := h.accepts_iff_completes_skipLayout hsource
      ('[' :: more) (by simp) fun hname => absurd hname hlast
    exact Scanner.not_completes_operator_of_head hd' (.inr rfl) (hiff.mp hmore)
  · intro hlast
    obtain ⟨before, c, text, gap, lexeme, rest, layout, tail, hbefore, hwhole, hrest, rfl, hname,
      hgap, hlayout⟩ := h.exists_split_name hsource hlast
    exact ⟨_, by simpa using hbefore.accepts_indexed hwhole hrest hname hgap hlayout⟩

end operator

end Reaches

end Reckon.Grammar
