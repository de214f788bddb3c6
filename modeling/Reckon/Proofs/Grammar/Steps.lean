import Reckon.Grammar.Expression
import Reckon.Proofs.Grammar.Scanner

/-!
What one step of a scan can do, and the stretches that several steps read. A
step takes one token, or a name with the bracket behind it, and knows where its
tokens stand. The steps of a stretch stop right behind its last token; which
layout follows is left to what comes next.
-/

namespace Reckon.Grammar

/-- A token of a text: its rule, its span and what it says. -/
abbrev Token := Rule × Span × String

namespace Cursor

/-- The token of a lexeme that stands here. -/
def token (c : Cursor) (r : Rule) (lexeme rest : List Char) : Token :=
  (r, ⟨c.offset, (c.after lexeme rest).offset⟩, String.ofList lexeme)

/-- Only layout stands between two cursors. -/
def PassesLayout (c d : Cursor) : Prop :=
  ∃ layout, (∀ a ∈ layout, isLayout a = true) ∧ c.Passes layout d

theorem PassesLayout.refl (c : Cursor) : c.PassesLayout c := ⟨[], nofun, .refl c⟩

theorem PassesLayout.trans {c d e : Cursor} (h : c.PassesLayout d) (h' : d.PassesLayout e) :
    c.PassesLayout e := by
  obtain ⟨layout, hlayout, hpass⟩ := h
  obtain ⟨layout', hlayout', hpass'⟩ := h'
  refine ⟨layout ++ layout', ?_, hpass.trans hpass'⟩
  intro a ha
  exact (List.mem_append.mp ha).elim (hlayout a) (hlayout' a)

theorem passesLayout_skipLayout (c : Cursor) : c.PassesLayout c.skipLayout := c.passes_skipLayout

theorem PassesLayout.skipLayout_eq {c d : Cursor} (h : c.PassesLayout d) :
    c.skipLayout = d.skipLayout := by
  obtain ⟨layout, hlayout, hrest, hoffset⟩ := h
  have htake : c.rest.takeWhile isLayout = layout ++ d.rest.takeWhile isLayout := by
    rw [hrest, List.takeWhile_append_of_pos hlayout]
  have hdrop : c.rest.dropWhile isLayout = d.rest.dropWhile isLayout := by
    rw [hrest, List.dropWhile_append_of_pos hlayout]
  simp only [skipLayout, after, htake, hdrop, Text.byteLength_append, hoffset, Nat.add_assoc]

end Cursor

/-- The rule of the bracket that closes. -/
def Bracket.closingRule : Bracket → Rule
  | paren => .closeParen
  | square => .closeBracket

/-- The steps of a scan with the tokens that they take. -/
inductive Step : Scanner → List Token → Scanner → Prop
  | sign {opened : List Bracket} {c d : Cursor} {s : Symbol} {rest : List Char}
      (hd : d = c.skipLayout) (hsymbol : Symbol.unaryAt? d.rest = some (s, rest)) :
      Step ⟨.operand, opened, c⟩ [d.token (.symbol s) s.text rest]
        ⟨.operand, opened, d.after s.text rest⟩
  | paren {opened : List Bracket} {c d : Cursor} {rest : List Char}
      (hd : d = c.skipLayout) (hopen : d.rest = '(' :: rest) :
      Step ⟨.operand, opened, c⟩ [d.token .openParen ['('] rest]
        ⟨.operand, .paren :: opened, d.after ['('] rest⟩
  | number {opened : List Bracket} {c d : Cursor} {lexeme rest : List Char}
      (hd : d = c.skipLayout) (hnumber : Lexeme.number? d.rest = some (lexeme, rest)) :
      Step ⟨.operand, opened, c⟩ [d.token .numberLiteral lexeme rest]
        ⟨.operator, opened, d.after lexeme rest⟩
  | name {opened : List Bracket} {c d : Cursor} {lexeme rest : List Char}
      (hd : d = c.skipLayout) (hname : Lexeme.identifier? d.rest = some (lexeme, rest))
      (hbare : (d.after lexeme rest).skipLayout.rest.head? ≠ some '[') :
      Step ⟨.operand, opened, c⟩ [d.token .identifier lexeme rest]
        ⟨.operator, opened, d.after lexeme rest⟩
  | indexed {opened : List Bracket} {c d e : Cursor} {lexeme rest inner : List Char}
      (hd : d = c.skipLayout) (hname : Lexeme.identifier? d.rest = some (lexeme, rest))
      (he : e = (d.after lexeme rest).skipLayout) (hopen : e.rest = '[' :: inner) :
      Step ⟨.operand, opened, c⟩
        [d.token .identifier lexeme rest, e.token .openBracket ['['] inner]
        ⟨.operand, .square :: opened, e.after ['['] inner⟩
  | operator {opened : List Bracket} {c d : Cursor} {s : Symbol} {rest : List Char}
      (hd : d = c.skipLayout) (hsymbol : Symbol.binaryAt? d.rest = some (s, rest)) :
      Step ⟨.operator, opened, c⟩ [d.token (.symbol s) s.text rest]
        ⟨.operand, opened, d.after s.text rest⟩
  | closing {opened : List Bracket} {c d : Cursor} {rest : List Char} (bracket : Bracket)
      (hd : d = c.skipLayout) (hclose : d.rest = bracket.closing :: rest) :
      Step ⟨.operator, bracket :: opened, c⟩
        [d.token bracket.closingRule [bracket.closing] rest]
        ⟨.operator, opened, d.after [bracket.closing] rest⟩

/-- What some tokens say. -/
def lexemesOf (tokens : List Token) : List String := tokens.map fun token => token.2.2

@[simp] theorem lexemesOf_append (first second : List Token) :
    lexemesOf (first ++ second) = lexemesOf first ++ lexemesOf second := List.map_append

/-- The rule of the last of some tokens. -/
def lastRule? (tokens : List Token) : Option Rule := tokens.getLast?.map Prod.fst

@[simp] theorem lastRule?_nil : lastRule? [] = none := rfl

@[simp] theorem lastRule?_append (tokens more : List Token) :
    lastRule? (tokens ++ more) = (lastRule? more).or (lastRule? tokens) := by
  rw [lastRule?, List.getLast?_append]
  cases h : more.getLast? <;> simp [lastRule?, h]

@[simp] theorem lastRule?_cons (token : Token) (tokens : List Token) :
    lastRule? (token :: tokens) = (lastRule? tokens).or (some token.1) :=
  lastRule?_append [token] tokens

theorem exists_lastRule?_of_ne_nil {tokens : List Token} (h : tokens ≠ []) :
    ∃ r, lastRule? tokens = some r :=
  ⟨(tokens.getLast h).1, by rw [lastRule?, List.getLast?_eq_some_getLast h]; rfl⟩

theorem lastRule?_append_of_ne_nil (tokens : List Token) {more : List Token} (h : more ≠ []) :
    lastRule? (tokens ++ more) = lastRule? more := by
  obtain ⟨r, hr⟩ := exists_lastRule?_of_ne_nil h
  rw [lastRule?_append, hr, Option.some_or]

namespace Step

variable {s s' : Scanner} {tokens : List Token}

theorem next? (h : Step s tokens s') : s.next? = some (lexemesOf tokens, s') := by
  cases h with
  | sign hd hsymbol =>
    subst hd
    exact Scanner.operand?_symbol _ hsymbol
  | paren hd hopen =>
    subst hd
    exact Scanner.operand?_paren _ hopen
  | number hd hnumber =>
    subst hd
    exact Scanner.operand?_number _ hnumber
  | name hd hname hbare =>
    subst hd
    exact Scanner.operand?_name _ hname hbare
  | indexed hd hname he hopen =>
    subst hd he
    exact Scanner.operand?_indexed _ hname hopen
  | operator hd hsymbol =>
    subst hd
    exact Scanner.operator?_symbol _ hsymbol
  | closing bracket hd hclose =>
    subst hd
    exact Scanner.operator?_closing _ bracket hclose

/-- A step looks at what stands behind the layout only. -/
theorem restart {expecting : Expecting} {opened : List Bracket} {c c' : Cursor}
    (h : Step ⟨expecting, opened, c⟩ tokens s') (hc : c'.skipLayout = c.skipLayout) :
    Step ⟨expecting, opened, c'⟩ tokens s' := by
  cases h with
  | sign hd hsymbol => exact .sign (hd.trans hc.symm) hsymbol
  | paren hd hopen => exact .paren (hd.trans hc.symm) hopen
  | number hd hnumber => exact .number (hd.trans hc.symm) hnumber
  | name hd hname hbare => exact .name (hd.trans hc.symm) hname hbare
  | indexed hd hname he hopen => exact .indexed (hd.trans hc.symm) hname he hopen
  | operator hd hsymbol => exact .operator (hd.trans hc.symm) hsymbol
  | closing bracket hd hclose => exact .closing bracket (hd.trans hc.symm) hclose

theorem ne_nil (h : Step s tokens s') : tokens ≠ [] := by
  cases h <;> exact List.cons_ne_nil _ _

/-- A step leads on, also from behind the layout. -/
theorem offset_lt (h : Step s tokens s') : s.cursor.skipLayout.offset < s'.cursor.offset := by
  obtain ⟨text, hne, -, hoffset⟩ := Scanner.passes_of_next? h.next?
  obtain ⟨a, more, rfl⟩ := List.exists_cons_of_ne_nil hne
  have hsize := a.utf8Size_pos
  rw [hoffset, Text.byteLength]
  omega

end Step

/-- A stretch of a text that a scan reads step by step. -/
inductive Reaches : Scanner → List Token → Scanner → Prop
  | refl (s : Scanner) : Reaches s [] s
  | step {s s' s'' : Scanner} {tokens more : List Token} (hstep : Step s tokens s')
      (hmore : Reaches s' more s'') : Reaches s (tokens ++ more) s''

namespace Reaches

variable {s s' s'' : Scanner} {tokens more : List Token}

theorem single (h : Step s tokens s') : Reaches s tokens s' := by
  simpa using Reaches.step h (.refl s')

theorem trans (h : Reaches s tokens s') (h' : Reaches s' more s'') :
    Reaches s (tokens ++ more) s'' := by
  induction h with
  | refl => exact h'
  | step hstep _ ih =>
    rw [List.append_assoc]
    exact .step hstep (ih h')

theorem run (h : Reaches s tokens s') : s.run = s'.run.after (lexemesOf tokens) := by
  induction h with
  | refl => rfl
  | step hstep _ ih => rw [Scanner.run_of_next? hstep.next?, ih, Scan.after_after, lexemesOf_append]

theorem passes (h : Reaches s tokens s') : ∃ text, s.cursor.Passes text s'.cursor := by
  induction h with
  | refl s => exact ⟨[], .refl _⟩
  | @step s _ _ _ _ hstep _ ih =>
    obtain ⟨layout, -, hlayout⟩ := s.cursor.passes_skipLayout
    obtain ⟨text, -, hpass⟩ := Scanner.passes_of_next? hstep.next?
    obtain ⟨more, hmore⟩ := ih
    exact ⟨_, (hlayout.trans hpass).trans hmore⟩

theorem offset_le (h : Reaches s tokens s') : s.cursor.offset ≤ s'.cursor.offset := by
  obtain ⟨text, hpass⟩ := h.passes
  exact hpass.offset_le

theorem offset_lt (h : Reaches s tokens s') (htokens : tokens ≠ []) :
    s.cursor.offset < s'.cursor.offset := by
  cases h with
  | refl => exact absurd rfl htokens
  | step hstep hmore =>
    exact (s.cursor.offset_le_skipLayout.trans_lt hstep.offset_lt).trans_le hmore.offset_le

/-- Behind an operand some token has been read. -/
theorem ne_nil {opened opened' : List Bracket} {c d : Cursor}
    (h : Reaches ⟨.operand, opened, c⟩ tokens ⟨.operator, opened', d⟩) : tokens ≠ [] := by
  cases h with
  | step hstep _ => exact List.append_ne_nil_of_left_ne_nil hstep.ne_nil _

/-- Layout before an operand makes no difference. -/
theorem before_layout {opened opened' : List Bracket} {c c' stop : Cursor}
    (h : Reaches ⟨.operand, opened, c⟩ tokens ⟨.operator, opened', stop⟩)
    (hc : c'.PassesLayout c) :
    Reaches ⟨.operand, opened, c'⟩ tokens ⟨.operator, opened', stop⟩ := by
  cases h with
  | step hstep hmore => exact .step (hstep.restart hc.skipLayout_eq) hmore

/-- Layout before rounds belongs to what follows, if there are none. -/
theorem behind_layout {opened : List Bracket} {c c' d stop : Cursor}
    (h : Reaches ⟨.operator, opened, c⟩ tokens ⟨.operator, opened, d⟩) (hc : c'.PassesLayout c)
    (hd : d.PassesLayout stop) :
    ∃ d', d'.PassesLayout stop ∧
      Reaches ⟨.operator, opened, c'⟩ tokens ⟨.operator, opened, d'⟩ := by
  cases h with
  | refl => exact ⟨c', hc.trans hd, .refl _⟩
  | step hstep hmore => exact ⟨d, hd, .step (hstep.restart hc.skipLayout_eq) hmore⟩

end Reaches

/-- The scanner with more brackets open around those that are. -/
def Scanner.within (s : Scanner) (outer : List Bracket) : Scanner :=
  ⟨s.expecting, s.opened ++ outer, s.cursor⟩

/-- A step does not look past the innermost bracket. -/
theorem Step.within {s s' : Scanner} {tokens : List Token} (h : Step s tokens s')
    (outer : List Bracket) : Step (s.within outer) tokens (s'.within outer) := by
  cases h with
  | sign hd hsymbol => exact .sign hd hsymbol
  | paren hd hopen => exact .paren hd hopen
  | number hd hnumber => exact .number hd hnumber
  | name hd hname hbare => exact .name hd hname hbare
  | indexed hd hname he hopen => exact .indexed hd hname he hopen
  | operator hd hsymbol => exact .operator hd hsymbol
  | closing bracket hd hclose => exact .closing bracket hd hclose

theorem Reaches.within {s s' : Scanner} {tokens : List Token} (h : Reaches s tokens s')
    (outer : List Bracket) : Reaches (s.within outer) tokens (s'.within outer) := by
  induction h with
  | refl s => exact .refl _
  | step hstep _ ih => exact .step (hstep.within outer) ih

end Reckon.Grammar
