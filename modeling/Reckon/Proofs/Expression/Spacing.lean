import Reckon.Proofs.Expression.Phrase
import Reckon.Proofs.Grammar.Scanner

/-!
Tokens written with a space between any two of them. A scan takes the tokens
of a phrase that is written so one by one and comes to the end of the text
with no bracket open.
-/

namespace Reckon

open Grammar

/-- Tokens with a space before each. -/
def behindSpaces (ts : List String) : List Char := ts.flatMap fun token => ' ' :: token.toList

/-- Tokens with a space between any two. -/
def spaced : List String → List Char
  | [] => []
  | token :: ts => token.toList ++ behindSpaces ts

theorem behindSpaces_cons (token : String) (ts : List String) :
    behindSpaces (token :: ts) = ' ' :: spaced (token :: ts) := rfl

theorem toList_intercalate_eq_spaced (ts : List String) :
    (" ".intercalate ts).toList = spaced ts := by
  induction ts with
  | nil => rfl
  | cons token ts ih =>
    cases ts with
    | nil => simp [spaced, behindSpaces]
    | cons next ts =>
      rw [String.intercalate_cons_cons, String.toList_append, String.toList_append, ih,
        List.append_assoc]
      rfl

theorem eq_space_of_behindSpaces {ts : List String} : ∀ a ∈ (behindSpaces ts).head?, a = ' ' := by
  cases ts with
  | nil => nofun
  | cons token ts =>
    rintro _ ⟨⟩
    rfl

/-- What starts with a space goes on with no word. -/
theorem isWord_eq_false_of_behindSpaces {ts : List String} :
    ∀ a ∈ (behindSpaces ts).head?, Lexeme.isWord a = false := by
  intro a ha
  obtain rfl := eq_space_of_behindSpaces a ha
  decide

theorem NumberLiteral.number?_append (literal : NumberLiteral) (more : List String) :
    Lexeme.number? (literal.text.toList ++ behindSpaces more) =
      some (literal.text.toList, behindSpaces more) :=
  Lexeme.number?_append literal.isNumber isWord_eq_false_of_behindSpaces

theorem Name.identifier?_append (base : Name) (more : List String) :
    Lexeme.identifier? (base.text.toList ++ behindSpaces more) =
      some (base.text.toList, behindSpaces more) := by
  obtain ⟨-, c, rest, htext, hstart, hrest⟩ := Lexeme.identifier?_eq_some base.identifier?_eq
  rw [htext]
  exact Lexeme.identifier?_append hstart hrest isWord_eq_false_of_behindSpaces

theorem UnaryOperator.unaryAt?_append (op : UnaryOperator) (more : List String) :
    Symbol.unaryAt? (op.text.toList ++ behindSpaces more) =
      some (op.symbol, behindSpaces more) := by
  rw [UnaryOperator.text, String.toList_ofList]
  cases more <;> cases op <;> rfl

theorem BinaryOperator.binaryAt?_append (op : BinaryOperator) (more : List String) :
    Symbol.binaryAt? (op.text.toList ++ behindSpaces more) =
      some (op.symbol, behindSpaces more) := by
  rw [BinaryOperator.text, String.toList_ofList]
  cases op with
  | arithmetic op => cases more <;> cases op <;> rfl
  | comparison op => cases more <;> cases op <;> rfl
  | bitAnd => cases more <;> rfl
  | logical op => cases more <;> cases op <;> rfl

/-- Tokens start with a character that is neither layout nor the bracket of an index. -/
def Clear (ts : List String) : Prop :=
  ∀ token ∈ ts.head?, ∃ a rest, token.toList = a :: rest ∧ isLayout a = false ∧ a ≠ '['

theorem clear_nil : Clear [] := nofun

theorem clear_cons {token : String} {a : Char} {rest : List Char} (ts : List String)
    (h : token.toList = a :: rest) (ha : isLayout a = false) (hbracket : a ≠ '[') :
    Clear (token :: ts) := by
  rintro _ ⟨⟩
  exact ⟨a, rest, h, ha, hbracket⟩

theorem clear_word {token : String} {a : Char} {rest : List Char} (ts : List String)
    (h : token.toList = a :: rest) (ha : Lexeme.isWord a = true) : Clear (token :: ts) := by
  have hlayout : isLayout a = false := by
    simp only [isLayout, Bool.or_eq_false_iff, decide_eq_false_iff_not]
    exact ⟨⟨⟨Lexeme.ne_of_isWord ha rfl, Lexeme.ne_of_isWord ha rfl⟩,
      Lexeme.ne_of_isWord ha rfl⟩, Lexeme.ne_of_isWord ha rfl⟩
  exact clear_cons ts h hlayout (Lexeme.ne_of_isWord ha (by decide))

theorem Clear.isLayout_eq_false {ts : List String} (h : Clear ts) :
    ∀ a ∈ (spaced ts).head?, isLayout a = false ∧ a ≠ '[' := by
  cases ts with
  | nil => nofun
  | cons token ts =>
    obtain ⟨a, rest, htoken, ha⟩ := h token rfl
    intro b hb
    rw [spaced, htoken] at hb
    cases hb
    exact ha

/-- What a phrase starts with is clear, or else what follows it is. -/
theorem Phrase.clear_append {category : Category} {ts more : List String} {e : Expr}
    (h : Phrase category ts e) (hmore : Clear more) : Clear (ts ++ more) := by
  induction h generalizing more with
  | number literal =>
    obtain ⟨a, rest, htext, hword, -⟩ := literal.isNumber.head
    exact clear_word _ htext hword
  | name base =>
    obtain ⟨-, a, rest, htext, hstart, -⟩ := Lexeme.identifier?_eq_some base.identifier?_eq
    exact clear_word _ htext (Lexeme.isWord_of_isNameStart hstart)
  | index base _ _ =>
    obtain ⟨-, a, rest, htext, hstart, -⟩ := Lexeme.identifier?_eq_some base.identifier?_eq
    exact clear_word _ htext (Lexeme.isWord_of_isNameStart hstart)
  | group _ _ => exact clear_cons _ rfl (by decide) (by decide)
  | unary op _ _ =>
    cases op <;> exact clear_cons _ rfl (by decide) (by decide)
  | bare _ ih => exact ih hmore
  | tier _ _ ihFirst ihRounds =>
    rw [List.append_assoc]
    exact ihFirst (ihRounds hmore)
  | done => exact hmore
  | round op _ _ _ _ =>
    cases op with
    | arithmetic op => cases op <;> exact clear_cons _ rfl (by decide) (by decide)
    | comparison op => cases op <;> exact clear_cons _ rfl (by decide) (by decide)
    | bitAnd => exact clear_cons _ rfl (by decide) (by decide)
    | logical op => cases op <;> exact clear_cons _ rfl (by decide) (by decide)

namespace Grammar.Cursor

/-- Behind the layout here stand these tokens and nothing else. -/
def Shows (c : Cursor) (ts : List String) : Prop := c.skipLayout.rest = spaced ts

theorem shows_after (c : Cursor) (lexeme : List Char) {ts : List String}
    (hts : ∀ a ∈ (spaced ts).head?, isLayout a = false) :
    (c.after lexeme (behindSpaces ts)).Shows ts := by
  cases ts with
  | nil => rfl
  | cons token ts =>
    have hspace : isLayout ' ' = true := rfl
    rw [behindSpaces_cons, Shows, skipLayout, after_rest, after_rest,
      List.dropWhile_cons_of_pos hspace]
    have hskip := skipLayout_eq_self (c := ⟨spaced (token :: ts), 0⟩) hts
    exact congrArg Cursor.rest hskip

theorem shows_after_of_clear (c : Cursor) (lexeme : List Char) {ts : List String}
    (hts : Clear ts) : (c.after lexeme (behindSpaces ts)).Shows ts :=
  c.shows_after lexeme fun a ha => (hts.isLayout_eq_false a ha).1

end Grammar.Cursor

/-- A scan takes some tokens and goes on with others; where it was before and where it is then
are told apart by what it waits for and by the brackets open. -/
def Takes (expecting : Expecting) (opened : List Bracket) (ts : List String)
    (expecting' : Expecting) (opened' : List Bracket) (more : List String) : Prop :=
  ∀ c : Cursor, c.Shows (ts ++ more) → ∃ stop : Cursor, stop.Shows more ∧
    Scanner.run ⟨expecting, opened, c⟩ = (Scanner.run ⟨expecting', opened', stop⟩).after ts

section steps

variable {expecting expecting' expecting'' : Expecting} {opened opened' opened'' : List Bracket}
  {ts ts' more : List String}

theorem Takes.trans (h : Takes expecting opened ts expecting' opened' (ts' ++ more))
    (h' : Takes expecting' opened' ts' expecting'' opened'' more) :
    Takes expecting opened (ts ++ ts') expecting'' opened'' more := by
  intro c hc
  rw [List.append_assoc] at hc
  obtain ⟨d, hd, hrun⟩ := h c hc
  obtain ⟨stop, hstop, hrun'⟩ := h' d hd
  exact ⟨stop, hstop, by rw [hrun, hrun', Scan.after_after]⟩

/-- One step takes a token. -/
theorem takes_token {token : String} (hmore : Clear more)
    (hstep : ∀ c : Cursor, c.skipLayout = c → c.rest = token.toList ++ behindSpaces more →
      Scanner.next? ⟨expecting, opened, c⟩ =
        some ([token], ⟨expecting', opened', c.after token.toList (behindSpaces more)⟩)) :
    Takes expecting opened [token] expecting' opened' more := by
  intro c hc
  refine ⟨_, c.skipLayout.shows_after_of_clear token.toList hmore, ?_⟩
  rw [← Scanner.run_skipLayout]
  exact Scanner.run_of_next? (hstep c.skipLayout c.skipLayout_skipLayout hc)

theorem takes_number (literal : NumberLiteral) (opened : List Bracket) (hmore : Clear more) :
    Takes .operand opened [literal.text] .operator opened more := by
  apply takes_token hmore
  intro c hskip hrest
  have hnumber := literal.number?_append more
  rw [← hrest] at hnumber
  have hstep := Scanner.operand?_number opened hnumber
  rw [String.ofList_toList] at hstep
  rw [Scanner.next?, hskip, hstep]

theorem takes_name (base : Name) (opened : List Bracket) (hmore : Clear more) :
    Takes .operand opened [base.text] .operator opened more := by
  apply takes_token hmore
  intro c hskip hrest
  have hname := base.identifier?_append more
  rw [← hrest] at hname
  have hbare : (c.after base.text.toList (behindSpaces more)).skipLayout.rest.head? ≠ some '[' := by
    rw [c.shows_after_of_clear base.text.toList hmore]
    intro hbracket
    exact (hmore.isLayout_eq_false _ hbracket).2 rfl
  have hstep := Scanner.operand?_name opened hname hbare
  rw [String.ofList_toList] at hstep
  rw [Scanner.next?, hskip, hstep]

/-- A name takes the bracket behind it along. -/
theorem takes_indexed (base : Name) (opened : List Bracket) (hmore : Clear more) :
    Takes .operand opened [base.text, "["] .operand (.square :: opened) more := by
  intro c hc
  have hname := base.identifier?_append ("[" :: more)
  have hlayout : ∀ a ∈ (spaced ("[" :: more)).head?, isLayout a = false := by
    rintro _ ⟨⟩
    decide
  have hopen := c.skipLayout.shows_after base.text.toList hlayout
  refine ⟨_, Cursor.shows_after_of_clear
    (c.skipLayout.after base.text.toList (behindSpaces ("[" :: more))).skipLayout ['['] hmore, ?_⟩
  have hrest : c.skipLayout.rest = base.text.toList ++ behindSpaces ("[" :: more) := hc
  rw [← hrest] at hname
  have hstep := Scanner.operand?_indexed opened hname hopen
  rw [String.ofList_toList] at hstep
  exact Scanner.run_of_next? hstep

theorem takes_paren (opened : List Bracket) (hmore : Clear more) :
    Takes .operand opened ["("] .operand (.paren :: opened) more := by
  apply takes_token hmore
  intro c hskip hrest
  rw [Scanner.next?, hskip, Scanner.operand?_paren opened hrest]
  rfl

theorem takes_unary (op : UnaryOperator) (opened : List Bracket) (hmore : Clear more) :
    Takes .operand opened [op.text] .operand opened more := by
  apply takes_token hmore
  intro c hskip hrest
  have hsymbol := op.unaryAt?_append more
  rw [← hrest] at hsymbol
  have htext : op.text.toList = op.symbol.text := String.toList_ofList
  rw [Scanner.next?, hskip, Scanner.operand?_symbol opened hsymbol, htext]
  rfl

theorem takes_binary (op : BinaryOperator) (opened : List Bracket) (hmore : Clear more) :
    Takes .operator opened [op.text] .operand opened more := by
  apply takes_token hmore
  intro c hskip hrest
  have hsymbol := op.binaryAt?_append more
  rw [← hrest] at hsymbol
  have htext : op.text.toList = op.symbol.text := String.toList_ofList
  rw [Scanner.next?, hskip, Scanner.operator?_symbol opened hsymbol, htext]
  rfl

theorem takes_closing (bracket : Bracket) (opened : List Bracket) (hmore : Clear more) :
    Takes .operator (bracket :: opened) [String.singleton bracket.closing] .operator opened
      more := by
  apply takes_token hmore
  intro c hskip hrest
  rw [String.toList_singleton] at hrest ⊢
  rw [Scanner.next?, hskip, Scanner.operator?_closing opened bracket hrest]
  rfl

end steps

def Category.expecting : Category → Expecting
  | operand => .operand
  | tiers _ => .operand
  | rounds _ _ _ => .operator

/-- A scan takes the tokens of a phrase one by one. -/
theorem Phrase.takes {category : Category} {ts more : List String} {e : Expr}
    (h : Phrase category ts e) (opened : List Bracket) (hmore : Clear more) :
    Takes category.expecting opened ts .operator opened more := by
  induction h generalizing opened more with
  | number literal => exact takes_number literal opened hmore
  | name base => exact takes_name base opened hmore
  | index base hindex ih =>
    have hclose : Clear ("]" :: more) := clear_cons more rfl (by decide) (by decide)
    have hopen := takes_indexed base opened (hindex.clear_append hclose)
    exact (hopen.trans (ih (.square :: opened) hclose)).trans (takes_closing .square opened hmore)
  | group hinner ih =>
    have hclose : Clear (")" :: more) := clear_cons more rfl (by decide) (by decide)
    have hopen := takes_paren opened (hinner.clear_append hclose)
    exact (hopen.trans (ih (.paren :: opened) hclose)).trans (takes_closing .paren opened hmore)
  | unary op hoperand ih =>
    exact (takes_unary op opened (hoperand.clear_append hmore)).trans (ih opened hmore)
  | bare _ ih => exact ih opened hmore
  | tier _ hrounds ihFirst ihRounds =>
    exact (ihFirst opened (hrounds.clear_append hmore)).trans (ihRounds opened hmore)
  | done => exact fun c hc => ⟨c, hc, rfl⟩
  | round op hoperand hrounds ihOperand ihRounds =>
    have hbehind := hrounds.clear_append hmore
    have hop := takes_binary op opened (hoperand.clear_append hbehind)
    exact (hop.trans (ihOperand opened hbehind)).trans (ihRounds opened hmore)

/-- A phrase with single spaces between its tokens is scanned to its end. -/
theorem Phrase.run_spaced {ts : List String} {e : Expr} (h : Phrase (.tiers Tier.all) ts e) :
    (Scanner.start (spaced ts)).run = ⟨ts, none⟩ := by
  have hclear := h.clear_append clear_nil
  rw [List.append_nil] at hclear
  have hstart : (Cursor.start (spaced ts)).Shows (ts ++ []) := by
    rw [List.append_nil, Cursor.Shows, Cursor.skipLayout_eq_self]
    · rfl
    · exact fun a ha => (hclear.isLayout_eq_false a ha).1
  obtain ⟨stop, hstop, hrun⟩ := h.takes [] clear_nil _ hstart
  have hend : stop.skipLayout.rest = [] := hstop
  have hnext : Scanner.next? ⟨.operator, [], stop⟩ = none :=
    Scanner.operator?_eq_none (by rw [hend]; rfl) (by simp)
  have hdone : Scanner.isDone ⟨.operator, [], stop⟩ = true := by
    simp [Scanner.isDone, hend]
  rw [Scanner.run_of_next?_eq_none hnext, hdone] at hrun
  exact hrun.trans (by simp [Scan.after])

end Reckon
