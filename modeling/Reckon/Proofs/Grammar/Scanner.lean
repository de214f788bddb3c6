import Reckon.Proofs.Grammar.Cursor

/-!
A scan of a text from left to right with a stack of open brackets and two
states, one before an operand and one behind it. The scan never goes back: it
takes lexemes until the text is at its end with all brackets closed, or until
it sticks. It knows nothing of precedence and builds no tree.
-/

namespace Reckon

namespace Symbol

/-- The symbol before an operand that a text starts with, the longest that fits, and what
follows it. -/
def unaryAt? : List Char → Option (Symbol × List Char)
  | '+' :: '+' :: rest => some (increment, rest)
  | '-' :: '-' :: rest => some (decrement, rest)
  | '+' :: rest => some (plus, rest)
  | '-' :: rest => some (minus, rest)
  | '!' :: rest => some (not, rest)
  | _ => none

/-- The symbol between operands that a text starts with and what follows it. Of a comparison
the longest fits; two signs in a row are a symbol and a sign of the operand behind it. -/
def binaryAt? : List Char → Option (Symbol × List Char)
  | '|' :: '|' :: rest => some (logicalOr, rest)
  | '&' :: '&' :: rest => some (logicalAnd, rest)
  | '&' :: rest => some (bitwiseAnd, rest)
  | '<' :: '=' :: rest => some (le, rest)
  | '>' :: '=' :: rest => some (ge, rest)
  | '<' :: rest => some (lt, rest)
  | '>' :: rest => some (gt, rest)
  | '+' :: rest => some (add, rest)
  | '-' :: rest => some (sub, rest)
  | '*' :: rest => some (mul, rest)
  | '/' :: rest => some (div, rest)
  | _ => none

/-- What starts with another character than a sign or a negation starts with no symbol before
an operand. -/
theorem unaryAt?_eq_none {text : List Char}
    (h : ∀ a ∈ text.head?, a ≠ '+' ∧ a ≠ '-' ∧ a ≠ '!') : unaryAt? text = none := by
  unfold unaryAt?
  split <;> simp_all

/-- A symbol found before an operand is written where it was found. -/
theorem append_of_unaryAt? {text rest : List Char} {s : Symbol}
    (h : unaryAt? text = some (s, rest)) : text = s.text ++ rest := by
  unfold unaryAt? at h
  split at h <;> cases h <;> rfl

/-- A symbol found between operands is written where it was found. -/
theorem append_of_binaryAt? {text rest : List Char} {s : Symbol}
    (h : binaryAt? text = some (s, rest)) : text = s.text ++ rest := by
  unfold binaryAt? at h
  split at h <;> cases h <;> rfl

theorem text_ne_nil (s : Symbol) : s.text ≠ [] := by
  cases s <;> decide

end Symbol

namespace Grammar

/-- What a scan waits for. -/
inductive Expecting where
  | operand
  | operator
deriving DecidableEq

/-- The kinds of brackets. -/
inductive Bracket where
  | paren
  | square
deriving DecidableEq

/-- The character that closes a bracket. -/
def Bracket.closing : Bracket → Char
  | paren => ')'
  | square => ']'

/-- A scan under way: what it waits for, the brackets open, the innermost first, and the text
still to come. -/
structure Scanner where
  expecting : Expecting
  opened : List Bracket
  cursor : Cursor

/-- The result of a scan: the lexemes taken and the offset at which it sticks, if it does. -/
structure Scan where
  lexemes : List String
  stuckAt? : Option Nat
deriving DecidableEq

/-- A scan with some lexemes taken before it. -/
def Scan.after (scan : Scan) (lexemes : List String) : Scan :=
  ⟨lexemes ++ scan.lexemes, scan.stuckAt?⟩

@[simp] theorem Scan.after_nil (scan : Scan) : scan.after [] = scan := rfl

@[simp] theorem Scan.after_after (scan : Scan) (first second : List String) :
    (scan.after second).after first = scan.after (first ++ second) := by
  simp only [after, List.append_assoc]

@[simp] theorem Scan.after_stuckAt? (scan : Scan) (lexemes : List String) :
    (scan.after lexemes).stuckAt? = scan.stuckAt? := rfl

namespace Scanner

/-- The scan of a text before its first character. -/
def start (source : List Char) : Scanner := ⟨.operand, [], .start source⟩

/-- Takes what may stand before or as an operand. A name takes an opening bracket behind it
along. -/
def operand? (opened : List Bracket) (c : Cursor) : Option (List String × Scanner) :=
  match Symbol.unaryAt? c.rest with
  | some (s, rest) => some ([String.ofList s.text], ⟨.operand, opened, c.after s.text rest⟩)
  | none =>
    match Lexeme.exactly? ['('] c.rest with
    | some (paren, rest) => some (["("], ⟨.operand, .paren :: opened, c.after paren rest⟩)
    | none =>
      match Lexeme.number? c.rest with
      | some (number, rest) =>
        some ([String.ofList number], ⟨.operator, opened, c.after number rest⟩)
      | none =>
        match Lexeme.identifier? c.rest with
        | some (name, rest) =>
          let next := (c.after name rest).skipLayout
          match Lexeme.exactly? ['['] next.rest with
          | some (bracket, rest) =>
            some ([String.ofList name, "["],
              ⟨.operand, .square :: opened, next.after bracket rest⟩)
          | none => some ([String.ofList name], ⟨.operator, opened, c.after name rest⟩)
        | none => none

/-- Takes what may stand behind an operand: a symbol, or what closes the innermost bracket. -/
def operator? (opened : List Bracket) (c : Cursor) : Option (List String × Scanner) :=
  match Symbol.binaryAt? c.rest with
  | some (s, rest) => some ([String.ofList s.text], ⟨.operand, opened, c.after s.text rest⟩)
  | none =>
    match opened, c.rest with
    | bracket :: outer, a :: rest =>
      if a = bracket.closing then
        some ([String.singleton a], ⟨.operator, outer, c.after [a] rest⟩)
      else none
    | _, _ => none

/-- Skips layout and takes one lexeme, or a name with the bracket behind it. -/
def next? (s : Scanner) : Option (List String × Scanner) :=
  match s.expecting with
  | .operand => operand? s.opened s.cursor.skipLayout
  | .operator => operator? s.opened s.cursor.skipLayout

/-- Whether a scan has come to the end of its text with an operand read and nothing open. -/
def isDone (s : Scanner) : Bool :=
  s.expecting = .operator && s.opened.isEmpty && s.cursor.skipLayout.rest.isEmpty

theorem passes_of_operand? {opened : List Bracket} {c : Cursor} {lexemes : List String}
    {s : Scanner} (h : operand? opened c = some (lexemes, s)) :
    ∃ text, text ≠ [] ∧ c.Passes text s.cursor := by
  unfold operand? at h
  split at h
  · next symbol rest hsymbol =>
    cases h
    exact ⟨symbol.text, symbol.text_ne_nil,
      Cursor.passes_after (Symbol.append_of_unaryAt? hsymbol)⟩
  · split at h
    · next paren rest hparen =>
      cases h
      obtain ⟨rfl, hrest⟩ := Lexeme.exactly?_eq_some hparen
      exact ⟨['('], by simp, Cursor.passes_after_cons hrest⟩
    · split at h
      · next number rest hnumber =>
        cases h
        obtain ⟨hform, htext⟩ := Lexeme.isNumber_of_number? hnumber
        obtain ⟨a, more, rfl, -⟩ := hform.head
        exact ⟨a :: more, by simp, Cursor.passes_after htext⟩
      · split at h
        · next name rest hname =>
          obtain ⟨htext, a, more, rfl, -⟩ := Lexeme.identifier?_eq_some hname
          have hpass := Cursor.passes_after htext
          dsimp only at h
          split at h
          · next bracket rest' hbracket =>
            cases h
            obtain ⟨rfl, hopen⟩ := Lexeme.exactly?_eq_some hbracket
            obtain ⟨layout, -, hlayout⟩ := (c.after (a :: more) rest).passes_skipLayout
            exact ⟨(a :: more) ++ layout ++ ['['], by simp,
              (hpass.trans hlayout).trans (Cursor.passes_after_cons hopen)⟩
          · cases h
            exact ⟨a :: more, by simp, hpass⟩
        · cases h

theorem passes_of_operator? {opened : List Bracket} {c : Cursor} {lexemes : List String}
    {s : Scanner} (h : operator? opened c = some (lexemes, s)) :
    ∃ text, text ≠ [] ∧ c.Passes text s.cursor := by
  unfold operator? at h
  split at h
  · next symbol rest hsymbol =>
    cases h
    exact ⟨symbol.text, symbol.text_ne_nil,
      Cursor.passes_after (Symbol.append_of_binaryAt? hsymbol)⟩
  · split at h
    · next bracket outer a rest hrest =>
      split at h
      · cases h
        exact ⟨[a], by simp, Cursor.passes_after_cons hrest⟩
      · cases h
    · cases h

theorem passes_of_next? {s s' : Scanner} {lexemes : List String}
    (h : s.next? = some (lexemes, s')) :
    ∃ text, text ≠ [] ∧ s.cursor.skipLayout.Passes text s'.cursor := by
  unfold next? at h
  split at h
  · exact passes_of_operand? h
  · exact passes_of_operator? h

/-- Every step of a scan takes a character. -/
theorem length_lt_of_next? {s s' : Scanner} {lexemes : List String}
    (h : s.next? = some (lexemes, s')) : s'.cursor.rest.length < s.cursor.rest.length := by
  obtain ⟨text, hne, hpass⟩ := passes_of_next? h
  have hlength := hpass.length_eq
  have hpos : 0 < text.length := List.length_pos_iff.mpr hne
  have hle := s.cursor.length_skipLayout_le
  omega

/-- Scans to the end, or to where the scan sticks. -/
def run (s : Scanner) : Scan :=
  match _h : s.next? with
  | some (lexemes, s') => s'.run.after lexemes
  | none => ⟨[], if s.isDone then none else some s.cursor.skipLayout.offset⟩
termination_by s.cursor.rest.length
decreasing_by exact length_lt_of_next? _h

/-- The scan of a text that goes on from here. -/
theorem run_of_next? {s s' : Scanner} {lexemes : List String}
    (h : s.next? = some (lexemes, s')) :
    s.run = s'.run.after lexemes := by
  rw [run]
  split
  · next h' =>
    rw [h] at h'
    cases h'
    rfl
  · next h' =>
    rw [h] at h'
    cases h'

theorem run_of_next?_eq_none {s : Scanner} (h : s.next? = none) :
    s.run = ⟨[], if s.isDone then none else some s.cursor.skipLayout.offset⟩ := by
  rw [run]
  split
  · next h' =>
    rw [h] at h'
    cases h'
  · rfl

/-- A scan sticks behind all that it has taken. -/
theorem offset_le_of_stuckAt? {s : Scanner} {place : Nat} (h : s.run.stuckAt? = some place) :
    s.cursor.skipLayout.offset ≤ place := by
  fun_induction run s with
  | case1 s lexemes s' hnext ih =>
    obtain ⟨text, -, hpass⟩ := passes_of_next? hnext
    have hle := hpass.offset_le
    have hle' := s'.cursor.offset_le_skipLayout
    have hplace := ih h
    omega
  | case2 s _ =>
    dsimp only at h
    split at h
    · cases h
    · cases h
      exact le_rfl

/-- Layout before a scan makes no difference. -/
theorem run_skipLayout (expecting : Expecting) (opened : List Bracket) (c : Cursor) :
    run ⟨expecting, opened, c.skipLayout⟩ = run ⟨expecting, opened, c⟩ := by
  have hnext : next? ⟨expecting, opened, c.skipLayout⟩ = next? ⟨expecting, opened, c⟩ := by
    simp only [next?, Cursor.skipLayout_skipLayout]
  have hdone : isDone ⟨expecting, opened, c.skipLayout⟩ = isDone ⟨expecting, opened, c⟩ := by
    simp only [isDone, Cursor.skipLayout_skipLayout]
  cases h : next? ⟨expecting, opened, c⟩ with
  | some found =>
    rw [run_of_next? h, run_of_next? (hnext.trans h)]
  | none =>
    rw [run_of_next?_eq_none h, run_of_next?_eq_none (hnext.trans h)]
    rw [hdone, Cursor.skipLayout_skipLayout]

theorem run_of_operator? {c : Cursor} {opened : List Bracket} {lexemes : List String}
    {s : Scanner} (hstep : operator? opened c.skipLayout = some (lexemes, s)) :
    run ⟨.operator, opened, c⟩ = s.run.after lexemes :=
  run_of_next? hstep

variable {c : Cursor} {lexeme rest : List Char}

theorem operand?_symbol (opened : List Bracket) {s : Symbol}
    (h : Symbol.unaryAt? c.rest = some (s, rest)) :
    operand? opened c =
      some ([String.ofList s.text], ⟨.operand, opened, c.after s.text rest⟩) := by
  simp only [operand?, h]

theorem operand?_paren (opened : List Bracket) (h : c.rest = '(' :: rest) :
    operand? opened c = some (["("], ⟨.operand, .paren :: opened, c.after ['('] rest⟩) := by
  have hsymbol : Symbol.unaryAt? c.rest = none := Symbol.unaryAt?_eq_none (by simp [h])
  have hparen : Lexeme.exactly? ['('] c.rest = some (['('], rest) := by
    rw [h, Lexeme.exactly?_cons]
  simp only [operand?, hsymbol, hparen]

theorem skipLayout_of_unaryAt? {s : Symbol} (h : Symbol.unaryAt? c.rest = some (s, rest)) :
    c.skipLayout = c := by
  apply Cursor.skipLayout_eq_self
  rw [Symbol.append_of_unaryAt? h]
  unfold Symbol.unaryAt? at h
  split at h <;> cases h <;> simp [Symbol.text, isLayout]

/-- Before a number or a name stands neither a symbol nor a bracket. -/
theorem word_head {a : Char} {more : List Char} (h : c.rest = a :: more)
    (ha : Lexeme.isWord a = true) :
    c.skipLayout = c ∧ Symbol.unaryAt? c.rest = none ∧ Lexeme.exactly? ['('] c.rest = none := by
  have hne : ∀ {b : Char}, Lexeme.isWord b = false → a ≠ b := Lexeme.ne_of_isWord ha
  refine ⟨Cursor.skipLayout_eq_self ?_, Symbol.unaryAt?_eq_none ?_, Lexeme.exactly?_eq_none ?_⟩
  · simp [h, isLayout, hne (by decide : Lexeme.isWord ' ' = false),
      hne (by decide : Lexeme.isWord '\t' = false), hne (by decide : Lexeme.isWord '\r' = false),
      hne (by decide : Lexeme.isWord '\n' = false)]
  · simp [h, hne (by decide : Lexeme.isWord '+' = false),
      hne (by decide : Lexeme.isWord '-' = false), hne (by decide : Lexeme.isWord '!' = false)]
  · simp [h, hne (by decide : Lexeme.isWord '(' = false)]

theorem number_head (h : Lexeme.number? c.rest = some (lexeme, rest)) :
    c.skipLayout = c ∧ Symbol.unaryAt? c.rest = none ∧ Lexeme.exactly? ['('] c.rest = none := by
  obtain ⟨hform, htext⟩ := Lexeme.isNumber_of_number? h
  obtain ⟨a, more, rfl, ha, -⟩ := hform.head
  exact word_head htext ha

theorem name_head (h : Lexeme.identifier? c.rest = some (lexeme, rest)) :
    c.skipLayout = c ∧ Symbol.unaryAt? c.rest = none ∧ Lexeme.exactly? ['('] c.rest = none := by
  obtain ⟨htext, a, more, rfl, ha, -⟩ := Lexeme.identifier?_eq_some h
  exact word_head htext (Lexeme.isWord_of_isNameStart ha)

/-- Where a symbol or a parenthesis stands before an operand, neither a number nor a name does. -/
theorem word?_eq_none
    (h : Symbol.unaryAt? c.rest ≠ none ∨ Lexeme.exactly? ['('] c.rest ≠ none) :
    Lexeme.number? c.rest = none ∧ Lexeme.identifier? c.rest = none := by
  constructor
  · cases hnumber : Lexeme.number? c.rest with
    | none => rfl
    | some found =>
      obtain ⟨-, hsymbol, hparen⟩ := number_head hnumber
      exact (h.elim (· hsymbol) (· hparen)).elim
  · cases hname : Lexeme.identifier? c.rest with
    | none => rfl
    | some found =>
      obtain ⟨-, hsymbol, hparen⟩ := name_head hname
      exact (h.elim (· hsymbol) (· hparen)).elim

theorem operand?_number (opened : List Bracket)
    (h : Lexeme.number? c.rest = some (lexeme, rest)) :
    operand? opened c =
      some ([String.ofList lexeme], ⟨.operator, opened, c.after lexeme rest⟩) := by
  obtain ⟨-, hsymbol, hparen⟩ := number_head h
  simp only [operand?, hsymbol, hparen, h]

theorem operand?_name (opened : List Bracket)
    (h : Lexeme.identifier? c.rest = some (lexeme, rest))
    (hbare : (c.after lexeme rest).skipLayout.rest.head? ≠ some '[') :
    operand? opened c =
      some ([String.ofList lexeme], ⟨.operator, opened, c.after lexeme rest⟩) := by
  obtain ⟨-, hsymbol, hparen⟩ := name_head h
  have hnumber := Lexeme.number?_eq_none_of_identifier? (Option.isSome_of_eq_some h)
  simp only [operand?, hsymbol, hparen, hnumber, h, Lexeme.exactly?_eq_none hbare]

theorem operand?_indexed (opened : List Bracket) {inner : List Char}
    (h : Lexeme.identifier? c.rest = some (lexeme, rest))
    (hopen : (c.after lexeme rest).skipLayout.rest = '[' :: inner) :
    operand? opened c =
      some ([String.ofList lexeme, "["],
        ⟨.operand, .square :: opened, (c.after lexeme rest).skipLayout.after ['['] inner⟩) := by
  obtain ⟨-, hsymbol, hparen⟩ := name_head h
  have hnumber := Lexeme.number?_eq_none_of_identifier? (Option.isSome_of_eq_some h)
  have hbracket :
      Lexeme.exactly? ['['] (c.after lexeme rest).skipLayout.rest = some (['['], inner) := by
    rw [hopen, Lexeme.exactly?_cons]
  simp only [operand?, hsymbol, hparen, hnumber, h, hbracket]

theorem operator?_symbol (opened : List Bracket) {s : Symbol}
    (h : Symbol.binaryAt? c.rest = some (s, rest)) :
    operator? opened c =
      some ([String.ofList s.text], ⟨.operand, opened, c.after s.text rest⟩) := by
  simp only [operator?, h]

theorem binaryAt?_closing (bracket : Bracket) (rest : List Char) :
    Symbol.binaryAt? (bracket.closing :: rest) = none := by
  cases bracket <;> rfl

theorem operator?_closing (opened : List Bracket) (bracket : Bracket)
    (h : c.rest = bracket.closing :: rest) :
    operator? (bracket :: opened) c =
      some ([String.singleton bracket.closing],
        ⟨.operator, opened, c.after [bracket.closing] rest⟩) := by
  simp only [operator?, h, binaryAt?_closing bracket rest, if_pos]

/-- A scan goes on behind the bracket that it waits for. -/
theorem run_of_closing (opened : List Bracket) (bracket : Bracket)
    (h : c.skipLayout.rest = bracket.closing :: rest) :
    run ⟨.operator, bracket :: opened, c⟩ =
      (run ⟨.operator, opened, c.skipLayout.after [bracket.closing] rest⟩).after
        [String.singleton bracket.closing] :=
  run_of_operator? (operator?_closing opened bracket h)

/-- Behind an operand the scan sticks at anything but a symbol and the bracket it waits for. -/
theorem operator?_eq_none {opened : List Bracket} (hsymbol : Symbol.binaryAt? c.rest = none)
    (hclose : ∀ bracket ∈ opened.head?, c.rest.head? ≠ some bracket.closing) :
    operator? opened c = none := by
  simp only [operator?, hsymbol]
  split
  · next bracket outer a rest' hrest =>
    rw [if_neg]
    rintro rfl
    exact hclose bracket rfl (by rw [hrest]; rfl)
  · rfl

end Scanner

end Grammar

end Reckon
