import Reckon.Proofs.Grammar.Steps

/-!
Texts that differ in their layout. A stretch that a scan reads is a row of
tokens with layout before each. The scan reads the same tokens in another text
that has them in this order, with any layout before each, if no two of them
touch there that stand apart here.
-/

namespace Reckon

namespace Symbol

/-- The character that would make a longer symbol of this one. -/
def longer? : Symbol → Option Char
  | plus => some '+'
  | minus => some '-'
  | bitwiseAnd => some '&'
  | lt => some '='
  | gt => some '='
  | _ => none

theorem unaryAt?_eq_some {text rest : List Char} {s : Symbol} :
    unaryAt? text = some (s, rest) ↔
      s ∈ unary ∧ text = s.text ++ rest ∧ ∀ a ∈ s.longer?, rest.head? ≠ some a := by
  constructor
  · intro h
    refine ⟨?_, append_of_unaryAt? h, ?_⟩
    · unfold unaryAt? at h
      split at h <;> cases h <;> decide
    · unfold unaryAt? at h
      split at h <;> cases h <;> simp [longer?]
      all_goals next hne => cases rest <;> simp_all
  · rintro ⟨hs, rfl, hrest⟩
    simp only [unary, List.mem_cons, List.not_mem_nil, or_false] at hs
    rcases hs with rfl | rfl | rfl | rfl | rfl <;> cases rest <;>
      simp_all [longer?, text, unaryAt?]

theorem binaryAt?_eq_some {text rest : List Char} {s : Symbol} :
    binaryAt? text = some (s, rest) ↔
      s ∈ Tier.all.flatMap Tier.symbols ∧ text = s.text ++ rest ∧
        ∀ a ∈ s.longer?, rest.head? ≠ some a := by
  constructor
  · intro h
    refine ⟨?_, append_of_binaryAt? h, ?_⟩
    · unfold binaryAt? at h
      split at h <;> cases h <;> decide
    · unfold binaryAt? at h
      split at h <;> cases h <;> simp [longer?]
      all_goals next hne => cases rest <;> simp_all
  · rintro ⟨hs, rfl, hrest⟩
    simp only [Tier.all, Tier.symbols, List.flatMap_cons, List.flatMap_nil, List.cons_append,
      List.nil_append, List.append_nil, List.mem_cons, List.not_mem_nil, or_false] at hs
    rcases hs with rfl | rfl | rfl | rfl | rfl | rfl | rfl | rfl | rfl | rfl | rfl <;>
      cases rest <;> simp_all [longer?, text, binaryAt?]

theorem isInk_of_mem_text (s : Symbol) : ∀ a ∈ s.text, Grammar.Lexeme.isInk a = true := by
  have hall : s.text.all Grammar.Lexeme.isInk = true := by cases s <;> decide
  exact List.all_eq_true.mp hall

end Symbol

namespace Grammar

theorem Lexeme.isLayout_eq_false_of_isInk {a : Char} (h : isInk a = true) : isLayout a = false := by
  have hblank := isBlank_eq_false_of_isInk h
  by_contra hlayout
  have hlayout' : isLayout a = true := by simpa using hlayout
  simp only [isLayout, Bool.or_eq_true, decide_eq_true_eq] at hlayout'
  rcases hlayout' with ((rfl | rfl) | rfl) | rfl <;> cases hblank

/-- The text of a token: some characters and no layout. -/
def Solid (lexeme : List Char) : Prop := lexeme ≠ [] ∧ ∀ a ∈ lexeme, Lexeme.isInk a = true

theorem solid_symbol (s : Symbol) : Solid s.text := ⟨s.text_ne_nil, s.isInk_of_mem_text⟩

theorem solid_bracket {a : Char} (h : a ∈ Lexeme.marks) : Solid [a] := by
  refine ⟨nofun, List.forall_mem_singleton.mpr ?_⟩
  rw [Lexeme.isInk, List.contains_iff_mem.mpr h, Bool.or_true]

theorem solid_number {text lexeme rest : List Char}
    (h : Lexeme.number? text = some (lexeme, rest)) : Solid lexeme := by
  obtain ⟨hform, -⟩ := Lexeme.isNumber_of_number? h
  obtain ⟨a, more, rfl, -⟩ := hform.head
  exact ⟨nofun, hform.isInk⟩

theorem solid_name {text lexeme rest : List Char}
    (h : Lexeme.identifier? text = some (lexeme, rest)) : Solid lexeme := by
  obtain ⟨-, a, more, rfl, hstart, hmore⟩ := Lexeme.identifier?_eq_some h
  have hpart : ∀ b ∈ a :: more, Lexeme.isNamePart b = true :=
    List.forall_mem_cons.mpr ⟨Lexeme.isNamePart_of_isNameStart hstart, hmore⟩
  exact ⟨nofun, fun b hb => Lexeme.isInk_of_isWord (Lexeme.isWord_of_isNamePart (hpart b hb))⟩

/-- Tokens stand one behind the other between two cursors, with layout before each. -/
inductive Laid : Cursor → List Token → Cursor → Prop
  | nil (c : Cursor) : Laid c [] c
  | cons {c d stop : Cursor} {r : Rule} {lexeme rest : List Char} {tokens : List Token}
      (hd : d = c.skipLayout) (htext : d.rest = lexeme ++ rest) (hsolid : Solid lexeme)
      (hmore : Laid (d.after lexeme rest) tokens stop) :
      Laid c (d.token r lexeme rest :: tokens) stop

theorem Laid.trans {c d e : Cursor} {tokens more : List Token} (h : Laid c tokens d)
    (h' : Laid d more e) : Laid c (tokens ++ more) e := by
  induction h with
  | nil => exact h'
  | cons hd htext hsolid _ ih => exact .cons hd htext hsolid (ih h')

theorem Step.laid {s s' : Scanner} {tokens : List Token} (h : Step s tokens s') :
    Laid s.cursor tokens s'.cursor := by
  cases h with
  | @sign _ _ _ symbol _ hd hsymbol =>
    exact .cons hd (Symbol.append_of_unaryAt? hsymbol) (solid_symbol symbol) (.nil _)
  | paren hd hopen => exact .cons hd hopen (solid_bracket (by decide)) (.nil _)
  | number hd hnumber =>
    exact .cons hd (Lexeme.isNumber_of_number? hnumber).2 (solid_number hnumber) (.nil _)
  | name hd hname hbare =>
    exact .cons hd (Lexeme.identifier?_eq_some hname).1 (solid_name hname) (.nil _)
  | indexed hd hname he hopen =>
    exact .cons hd (Lexeme.identifier?_eq_some hname).1 (solid_name hname)
      (.cons he hopen (solid_bracket (by decide)) (.nil _))
  | @operator _ _ _ symbol _ hd hsymbol =>
    exact .cons hd (Symbol.append_of_binaryAt? hsymbol) (solid_symbol symbol) (.nil _)
  | closing bracket hd hclose =>
    exact .cons hd hclose (solid_bracket (by cases bracket <;> decide)) (.nil _)

theorem Reaches.laid {s s' : Scanner} {tokens : List Token} (h : Reaches s tokens s') :
    Laid s.cursor tokens s'.cursor := by
  induction h with
  | refl => exact .nil _
  | step hstep _ ih => exact hstep.laid.trans ih

/-- Two texts start with the same lexemes, each with layout before it, and go on each with a text
of its own. Lexemes touch in the second only where they touch in the first. -/
inductive Respaced (tail tail' : List Char) : List String → List Char → List Char → Prop
  | nil : Respaced tail tail' [] tail tail'
  | cons {gap gap' rest rest' : List Char} {lexeme : String} {lexemes : List String}
      (hgap : ∀ a ∈ gap, isLayout a = true) (hgap' : ∀ a ∈ gap', isLayout a = true)
      (htouch : gap' = [] → gap = []) (hmore : Respaced tail tail' lexemes rest rest') :
      Respaced tail tail' (lexeme :: lexemes) (gap ++ (lexeme.toList ++ rest))
        (gap' ++ (lexeme.toList ++ rest'))

/-- A text may come behind a stretch in the place of another. It starts with layout or a bracket
that no lexeme goes on with, or as the other does if an operand is missing there, and it has no
index behind a name. -/
structure Replaces (expecting : Expecting) (last : Option Rule) (tail tail' : List Char) :
    Prop where
  head : expecting = .operand ∧ tail'.head? = tail.head? ∨
    ∀ a ∈ tail'.head?, isLayout a = true ∨ a ∈ [')', ']', '[']
  bracket : last = some .identifier → (tail'.dropWhile isLayout).head? ≠ some '['

theorem Replaces.of_layout {expecting : Expecting} {last : Option Rule} {tail tail' : List Char}
    (h : ∀ a ∈ tail', isLayout a = true) : Replaces expecting last tail tail' where
  head := .inr fun a ha => .inl (h a (List.mem_of_mem_head? ha))
  bracket _ := by
    rw [List.dropWhile_eq_nil_iff.mpr h]
    nofun

theorem skip_solid {gap lexeme : List Char} (rest : List Char)
    (hgap : ∀ a ∈ gap, isLayout a = true) (hsolid : Solid lexeme) :
    (gap ++ (lexeme ++ rest)).dropWhile isLayout = lexeme ++ rest := by
  obtain ⟨a, more, rfl⟩ := List.exists_cons_of_ne_nil hsolid.1
  have ha : isLayout a = false :=
    Lexeme.isLayout_eq_false_of_isInk (hsolid.2 a List.mem_cons_self)
  rw [List.dropWhile_append_of_pos hgap, List.cons_append,
    List.dropWhile_cons_of_neg (by simp [ha])]

theorem isWord_eq_false_of_isLayout {a : Char} (h : isLayout a = true) :
    Lexeme.isWord a = false := by
  by_contra hword
  have hink := Lexeme.isInk_of_isWord (by simpa using hword)
  rw [Lexeme.isLayout_eq_false_of_isInk hink] at h
  cases h

/-- A text starts with layout or with what stands behind its layout. -/
theorem Cursor.isLayout_or_head {c : Cursor} :
    ∀ a ∈ c.rest.head?, isLayout a = true ∨ a ∈ c.skipLayout.rest.head? := by
  intro a ha
  by_cases hlayout : isLayout a = true
  · exact .inl hlayout
  · rw [Cursor.skipLayout_eq_self]
    · exact .inr ha
    · intro b hb
      obtain rfl := Option.mem_unique ha hb
      simpa using hlayout

theorem isWord_eq_false_of_quiet {a : Char} (h : isLayout a = true ∨ a ∈ [')', ']', '[']) :
    Lexeme.isWord a = false := by
  rcases h with hlayout | hbracket
  · exact isWord_eq_false_of_isLayout hlayout
  · simp only [List.mem_cons, List.not_mem_nil, or_false] at hbracket
    rcases hbracket with rfl | rfl | rfl <;> rfl

namespace Respaced

variable {tail tail' rest rest' : List Char} {lexemes : List String} {expecting : Expecting}
  {last : Option Rule}

/-- The first lexeme of the two texts, and what follows it. -/
theorem exists_rest {c c' d : Cursor} {r : Rule} {lexeme : List Char} {tokens : List Token}
    (h : Respaced tail tail' (lexemesOf (d.token r lexeme rest :: tokens)) c.rest c'.rest)
    (hd : d = c.skipLayout) (htext : d.rest = lexeme ++ rest) (hsolid : Solid lexeme) :
    ∃ rest', c'.skipLayout.rest = lexeme ++ rest' ∧
      Respaced tail tail' (lexemesOf tokens) rest rest' := by
  have hlexemes : lexemesOf (d.token r lexeme rest :: tokens) =
      String.ofList lexeme :: lexemesOf tokens := rfl
  rw [hlexemes] at h
  generalize htexts : c.rest = text at h
  generalize htexts' : c'.rest = text' at h
  cases h with
  | @cons gap gap' found rest' _ _ hgap hgap' htouch hmore =>
    rw [String.toList_ofList] at htexts htexts'
    have hfound : lexeme ++ rest = lexeme ++ found := by
      rw [← htext, hd, Cursor.skipLayout, Cursor.after_rest, htexts, skip_solid _ hgap hsolid]
    obtain rfl := List.append_cancel_left hfound
    refine ⟨rest', ?_, hmore⟩
    rw [Cursor.skipLayout, Cursor.after_rest, htexts', skip_solid _ hgap' hsolid]

/-- What follows a lexeme starts alike in both texts, or with layout or a bracket in the
second. -/
theorem head_eq_or (h : Respaced tail tail' lexemes rest rest')
    (hsolid : ∀ lexeme ∈ lexemes, Solid lexeme.toList)
    (htail : Replaces expecting last tail tail') :
    rest'.head? = rest.head? ∨ ∀ a ∈ rest'.head?, isLayout a = true ∨ a ∈ [')', ']', '['] := by
  cases h with
  | nil => exact htail.head.imp_left And.right
  | @cons gap gap' rest rest' lexeme lexemes hgap hgap' htouch _ =>
    cases gap' with
    | nil =>
      obtain rfl := htouch rfl
      obtain ⟨a, more, hlexeme⟩ := List.exists_cons_of_ne_nil (hsolid lexeme List.mem_cons_self).1
      exact .inl (by simp [hlexeme])
    | cons a gap' =>
      refine .inr fun b hb => ?_
      cases hb
      exact .inl (hgap' a List.mem_cons_self)

/-- No longer symbol arises in the second text. -/
theorem longer?_ne_head (h : Respaced tail tail' lexemes rest rest')
    (hsolid : ∀ lexeme ∈ lexemes, Solid lexeme.toList)
    (htail : Replaces expecting last tail tail') {s : Symbol}
    (hs : ∀ a ∈ s.longer?, rest.head? ≠ some a) : ∀ a ∈ s.longer?, rest'.head? ≠ some a := by
  intro a ha hhead
  rcases h.head_eq_or hsolid htail with heq | hquiet
  · exact hs a ha (heq ▸ hhead)
  · have hlonger : ∀ a ∈ s.longer?, isLayout a = false ∧ a ∉ [')', ']', '['] := by
      cases s <;> simp [Symbol.longer?, isLayout]
    obtain ⟨hlayout, hbracket⟩ := hlonger a ha
    rcases hquiet a hhead with hq | hq
    · rw [hlayout] at hq
      cases hq
    · exact hbracket hq

/-- An index follows in the second text only where one does in the first. -/
theorem bracket_ne_head (h : Respaced tail tail' lexemes rest rest')
    (hsolid : ∀ lexeme ∈ lexemes, Solid lexeme.toList)
    (htail : lexemes = [] → (tail'.dropWhile isLayout).head? ≠ some '[')
    (hrest : (rest.dropWhile isLayout).head? ≠ some '[') :
    (rest'.dropWhile isLayout).head? ≠ some '[' := by
  cases h with
  | nil => exact htail rfl
  | @cons gap gap' rest rest' lexeme lexemes hgap hgap' htouch _ =>
    have hlexeme := hsolid lexeme List.mem_cons_self
    rw [skip_solid _ hgap hlexeme] at hrest
    rw [skip_solid _ hgap' hlexeme]
    obtain ⟨a, more, heq⟩ := List.exists_cons_of_ne_nil hlexeme.1
    simpa [heq] using hrest

end Respaced

/-- No word follows an operand. -/
theorem Step.isWord_eq_false {opened : List Bracket} {c : Cursor} {tokens : List Token}
    {s : Scanner} (h : Step ⟨.operator, opened, c⟩ tokens s) :
    ∀ a ∈ c.rest.head?, Lexeme.isWord a = false := by
  intro a ha
  rcases Cursor.isLayout_or_head a ha with hlayout | hhead
  · exact isWord_eq_false_of_isLayout hlayout
  · cases h with
    | operator hd hsymbol =>
      subst hd
      rw [Symbol.append_of_binaryAt? hsymbol] at hhead
      unfold Symbol.binaryAt? at hsymbol
      split at hsymbol <;> cases hsymbol <;> cases hhead <;> rfl
    | closing bracket hd hclose =>
      subst hd
      rw [hclose] at hhead
      cases hhead
      cases bracket <;> rfl

theorem Laid.solid {c stop : Cursor} {tokens : List Token} (h : Laid c tokens stop) :
    ∀ lexeme ∈ lexemesOf tokens, Solid lexeme.toList := by
  induction h with
  | nil => exact nofun
  | cons _ _ hsolid _ ih =>
    refine List.forall_mem_cons.mpr ⟨?_, ih⟩
    simpa [Cursor.token] using hsolid

namespace Reaches

variable {expecting expecting' : Expecting} {opened opened' : List Bracket} {c c' d : Cursor}
  {tokens : List Token} {s : Scanner} {tail' rest' : List Char} {last : Option Rule}

/-- Behind an operand no word starts in the second text. -/
theorem isWord_eq_false (h : Reaches ⟨.operator, opened, c⟩ tokens s)
    (hrest : Respaced s.cursor.rest tail' (lexemesOf tokens) c.rest rest')
    (htail : Replaces s.expecting last s.cursor.rest tail') :
    ∀ a ∈ rest'.head?, Lexeme.isWord a = false := by
  have hsolid := h.laid.solid
  intro a ha
  cases h with
  | refl =>
    cases hrest
    exact isWord_eq_false_of_quiet (htail.head.resolve_left (by simp) a ha)
  | step hstep hmore =>
    rcases hrest.head_eq_or hsolid htail with heq | hquiet
    · exact hstep.isWord_eq_false a (heq ▸ ha)
    · exact isWord_eq_false_of_quiet (hquiet a ha)

end Reaches

/-- A step takes the same lexemes in the second text and leaves the two texts alike. -/
theorem Step.respaced {s s' s'' : Scanner} {tokens more : List Token} {c' : Cursor}
    {tail' : List Char} (h : Step s tokens s') (hmore : Reaches s' more s'')
    (htexts : Respaced s''.cursor.rest tail' (lexemesOf (tokens ++ more)) s.cursor.rest c'.rest)
    (htail : Replaces s''.expecting (lastRule? (tokens ++ more)) s''.cursor.rest tail') :
    ∃ tokens' d', Step ⟨s.expecting, s.opened, c'⟩ tokens' ⟨s'.expecting, s'.opened, d'⟩ ∧
      lexemesOf tokens' = lexemesOf tokens ∧
      Respaced s''.cursor.rest tail' (lexemesOf more) s'.cursor.rest d'.rest := by
  have hsolid := hmore.laid.solid
  cases h with
  | @sign _ _ d s rest hd hsymbol =>
    obtain ⟨rest', hrest', hrespaced⟩ :=
      htexts.exists_rest hd (Symbol.append_of_unaryAt? hsymbol) (solid_symbol s)
    obtain ⟨hmem, -, hlonger⟩ := Symbol.unaryAt?_eq_some.mp hsymbol
    have hlonger' := hrespaced.longer?_ne_head hsolid htail hlonger
    exact ⟨_, _, .sign rfl (Symbol.unaryAt?_eq_some.mpr ⟨hmem, hrest', hlonger'⟩), rfl, hrespaced⟩
  | paren hd hopen =>
    obtain ⟨rest', hrest', hrespaced⟩ := htexts.exists_rest hd hopen (solid_bracket (by decide))
    exact ⟨_, _, .paren rfl hrest', rfl, hrespaced⟩
  | @number _ _ d lexeme rest hd hnumber =>
    obtain ⟨hform, htext⟩ := Lexeme.isNumber_of_number? hnumber
    obtain ⟨rest', hrest', hrespaced⟩ := htexts.exists_rest hd htext (solid_number hnumber)
    have hnumber' := Lexeme.number?_append hform (hmore.isWord_eq_false hrespaced htail)
    rw [← hrest'] at hnumber'
    exact ⟨_, _, .number rfl hnumber', rfl, hrespaced⟩
  | @name _ _ d lexeme rest hd hname hbare =>
    obtain ⟨htext, a, part, rfl, hstart, hpart⟩ := Lexeme.identifier?_eq_some hname
    obtain ⟨rest', hrest', hrespaced⟩ := htexts.exists_rest hd htext (solid_name hname)
    have hname' := Lexeme.identifier?_append hstart hpart (hmore.isWord_eq_false hrespaced htail)
    rw [← hrest'] at hname'
    have hbare' := hrespaced.bracket_ne_head hsolid (fun hnil => htail.bracket (by
      obtain rfl : more = [] := List.map_eq_nil_iff.mp hnil
      rfl)) hbare
    exact ⟨_, _, .name rfl hname' hbare', rfl, hrespaced⟩
  | @indexed _ _ d e lexeme rest inner hd hname he hopen =>
    obtain ⟨htext, a, part, rfl, hstart, hpart⟩ := Lexeme.identifier?_eq_some hname
    obtain ⟨rest', hrest', hrespaced⟩ := htexts.exists_rest hd htext (solid_name hname)
    replace hrespaced : Respaced s''.cursor.rest tail' _ (d.after (a :: part) rest).rest
      (c'.skipLayout.after (a :: part) rest').rest := hrespaced
    obtain ⟨inner', hinner', hrespaced'⟩ :=
      hrespaced.exists_rest he hopen (solid_bracket (by decide))
    have hword : ∀ b ∈ rest'.head?, Lexeme.isWord b = false := by
      intro b hb
      rcases Cursor.isLayout_or_head (c := c'.skipLayout.after (a :: part) rest') b hb with
        hlayout | hhead
      · exact isWord_eq_false_of_isLayout hlayout
      · rw [hinner'] at hhead
        cases hhead
        rfl
    have hname' := Lexeme.identifier?_append hstart hpart hword
    rw [← hrest'] at hname'
    exact ⟨_, _, .indexed rfl hname' rfl hinner', rfl, hrespaced'⟩
  | @operator _ _ d s rest hd hsymbol =>
    obtain ⟨rest', hrest', hrespaced⟩ :=
      htexts.exists_rest hd (Symbol.append_of_binaryAt? hsymbol) (solid_symbol s)
    obtain ⟨hmem, -, hlonger⟩ := Symbol.binaryAt?_eq_some.mp hsymbol
    have hlonger' := hrespaced.longer?_ne_head hsolid htail hlonger
    exact ⟨_, _, .operator rfl (Symbol.binaryAt?_eq_some.mpr ⟨hmem, hrest', hlonger'⟩), rfl,
      hrespaced⟩
  | closing bracket hd hclose =>
    obtain ⟨rest', hrest', hrespaced⟩ :=
      htexts.exists_rest hd hclose (solid_bracket (by cases bracket <;> decide))
    exact ⟨_, _, .closing bracket rfl hrest', rfl, hrespaced⟩

/-- A scan reads the same lexemes in a text with other layout, up to where it goes on alone. -/
theorem Reaches.respaced {s s' : Scanner} {tokens : List Token} {c' : Cursor} {tail' : List Char}
    (h : Reaches s tokens s')
    (htexts : Respaced s'.cursor.rest tail' (lexemesOf tokens) s.cursor.rest c'.rest)
    (htail : Replaces s'.expecting (lastRule? tokens) s'.cursor.rest tail') :
    ∃ tokens' d', Reaches ⟨s.expecting, s.opened, c'⟩ tokens' ⟨s'.expecting, s'.opened, d'⟩ ∧
      lexemesOf tokens' = lexemesOf tokens ∧ d'.rest = tail' := by
  induction h generalizing c' with
  | refl s =>
    generalize htext : s.cursor.rest = text at htexts
    generalize htext' : c'.rest = text' at htexts
    cases htexts
    exact ⟨[], c', .refl _, rfl, htext'⟩
  | step hstep hmore ih =>
    obtain ⟨tokens', e, hstep', hlexemes, hrespaced⟩ := hstep.respaced hmore htexts htail
    obtain ⟨more', d', hmore', hlexemes', hrest⟩ := ih hrespaced ⟨htail.head, fun hlast =>
      htail.bracket (by rw [lastRule?_append, hlast, Option.some_or])⟩
    exact ⟨tokens' ++ more', d', .step hstep' hmore', by simp [hlexemes, hlexemes'], hrest⟩

theorem Laid.filter_eq {c stop : Cursor} {tokens : List Token} (h : Laid c tokens stop) :
    c.rest.filter (fun a => !isLayout a) =
      (lexemesOf tokens).flatMap String.toList ++ stop.rest.filter fun a => !isLayout a := by
  induction h with
  | nil => rfl
  | @cons c d stop r lexeme rest tokens hd htext hsolid _ ih =>
    obtain ⟨gap, hgap, hpass⟩ := c.passes_skipLayout
    have hlayout : gap.filter (fun a => !isLayout a) = [] := by simpa using hgap
    have hlexeme : lexeme.filter (fun a => !isLayout a) = lexeme := by
      rw [List.filter_eq_self]
      intro a ha
      rw [Lexeme.isLayout_eq_false_of_isInk (hsolid.2 a ha)]
      rfl
    subst hd
    rw [Cursor.after_rest] at ih
    rw [hpass.1, htext, List.filter_append, List.filter_append, hlayout, hlexeme, ih]
    simp [lexemesOf, Cursor.token]

theorem Respaced.token {tail tail' gap gap' rest rest' : List Char} {tokens : List Token}
    (d : Cursor) (r : Rule) (lexeme : List Char) (hgap : ∀ a ∈ gap, isLayout a = true)
    (hgap' : ∀ a ∈ gap', isLayout a = true) (htouch : gap' = [] → gap = [])
    (hmore : Respaced tail tail' (lexemesOf tokens) rest rest') :
    Respaced tail tail' (lexemesOf (d.token r lexeme rest :: tokens))
      (gap ++ (lexeme ++ rest)) (gap' ++ (lexeme ++ rest')) := by
  have hlexeme := String.toList_ofList (l := lexeme)
  rw [← hlexeme]
  exact hlexeme.symm ▸ .cons hgap hgap' htouch hmore

theorem Laid.respaced_self {c stop : Cursor} {tokens : List Token} (h : Laid c tokens stop) :
    Respaced stop.rest stop.rest (lexemesOf tokens) c.rest c.rest := by
  induction h with
  | nil => exact .nil
  | @cons c d stop r lexeme rest tokens hd htext hsolid _ ih =>
    obtain ⟨gap, hgap, hpass⟩ := c.passes_skipLayout
    subst hd
    rw [hpass.1, htext]
    exact .token _ r lexeme hgap hgap id ih

/-- Tokens stand before another ending as they stand before theirs. -/
theorem Laid.cut {c stop : Cursor} {tokens : List Token} {tail more : List Char}
    (h : Laid c tokens stop) (hstop : stop.rest = tail ++ more) :
    ∃ text, c.rest = text ++ more ∧
      ∀ more', Respaced stop.rest (tail ++ more') (lexemesOf tokens) c.rest (text ++ more') := by
  induction h with
  | nil => exact ⟨tail, hstop, fun _ => .nil⟩
  | @cons c d stop r lexeme rest tokens hd htext hsolid _ ih =>
    obtain ⟨text, hrest, hrespaced⟩ := ih hstop
    obtain ⟨gap, hgap, ⟨hgaprest, -⟩⟩ := c.passes_skipLayout
    rw [← hd, htext] at hgaprest
    refine ⟨gap ++ (lexeme ++ text), ?_, fun more' => ?_⟩
    · rw [hgaprest, show rest = text ++ more from hrest]
      simp
    · rw [hgaprest]
      simpa using Respaced.token d r lexeme hgap hgap id (hrespaced more')

/-- The spans of tokens lie behind the cursor before them. -/
theorem Laid.offset_le {c stop : Cursor} {tokens : List Token} (h : Laid c tokens stop) :
    ∀ token ∈ tokens, c.offset ≤ token.2.1.start ∧ c.offset ≤ token.2.1.stop := by
  induction h with
  | nil => exact nofun
  | @cons c d stop r lexeme rest tokens hd htext hsolid _ ih =>
    have hle := c.offset_le_skipLayout
    rw [← hd] at hle
    have hle' : d.offset ≤ (d.after lexeme rest).offset := Nat.le_add_right _ _
    refine List.forall_mem_cons.mpr ⟨⟨hle, hle.trans hle'⟩, ?_⟩
    intro token htoken
    obtain ⟨hstart, hstop⟩ := ih token htoken
    exact ⟨(hle.trans hle').trans hstart, (hle.trans hle').trans hstop⟩

theorem eq_nil_of_byteLength {text : List Char} (h : Text.byteLength text = 0) : text = [] := by
  cases text with
  | nil => rfl
  | cons a text =>
    have hsize := a.utf8Size_pos
    rw [Text.byteLength] at h
    omega

/-- Layout before the first lexeme may grow. -/
theorem Laid.insert_before {d stop : Cursor} {r : Rule} {lexeme rest : List Char}
    {tokens : List Token} {pre gap after : List Char} (htext : d.rest = lexeme ++ rest)
    (hmore : Laid (d.after lexeme rest) tokens stop)
    (hbefore : ∀ a ∈ pre ++ after, isLayout a = true) (hgap : ∀ a ∈ gap, isLayout a = true) :
    Respaced stop.rest stop.rest (lexemesOf (d.token r lexeme rest :: tokens))
      (pre ++ (after ++ d.rest)) (pre ++ (gap ++ (after ++ d.rest))) := by
  obtain ⟨hpre, hafter⟩ := List.forall_mem_append.mp hbefore
  have hlayout : ∀ a ∈ pre ++ (gap ++ after), isLayout a = true := by
    simp only [List.forall_mem_append]
    exact ⟨hpre, hgap, hafter⟩
  have htoken := Respaced.token d r lexeme hbefore hlayout (by simp +contextual)
    hmore.respaced_self
  simpa [htext] using htoken

/-- The place between two parts of a text is an end of the text or of one of its tokens. -/
def Borders (c : Cursor) (pre post : List Char) (tokens : List Token) : Prop :=
  pre = [] ∨ post = [] ∨ ∃ token ∈ tokens,
    c.offset + Text.byteLength pre = token.2.1.start ∨
      c.offset + Text.byteLength pre = token.2.1.stop

section borders

variable {c d stop : Cursor} {r : Rule} {lexeme rest before tail post : List Char}
  {tokens : List Token}

/-- A border behind the first token is one of those that follow. -/
theorem Borders.behind (hne : lexeme ≠ []) (hpass : c.Passes before d)
    (h : Borders c (before ++ (lexeme ++ tail)) post (d.token r lexeme rest :: tokens)) :
    Borders (d.after lexeme rest) tail post tokens := by
  unfold Borders at h ⊢
  simp only [Text.byteLength_append, ← Nat.add_assoc, ← hpass.2] at h
  rcases h with hpre | hpost | ⟨token, htoken, hat⟩
  · simp [hne] at hpre
  · exact .inr (.inl hpost)
  rcases List.mem_cons.mp htoken with rfl | htoken
  · simp only [Cursor.token, Cursor.after] at hat
    exact .inl (eq_nil_of_byteLength (by omega))
  · exact .inr (.inr ⟨token, htoken, hat⟩)

/-- No token starts or ends inside a lexeme. -/
theorem Laid.not_borders_within {within more : List Char} (hwithin : within ≠ [])
    (hmore : more ≠ []) (hpass : c.Passes before d)
    (h : Laid (d.after (within ++ more) rest) tokens stop) :
    ¬ Borders c (before ++ within) (more ++ rest)
      (d.token r (within ++ more) rest :: tokens) := by
  have hwithin' : Text.byteLength within ≠ 0 := mt eq_nil_of_byteLength hwithin
  have hmore' : Text.byteLength more ≠ 0 := mt eq_nil_of_byteLength hmore
  unfold Borders
  simp only [Text.byteLength_append, ← Nat.add_assoc, ← hpass.2]
  rintro (hpre | hpost | ⟨token, htoken, hat⟩)
  · simp [hwithin] at hpre
  · simp [hmore] at hpost
  rcases List.mem_cons.mp htoken with rfl | htoken
  · simp only [Cursor.token, Cursor.after, Text.byteLength_append] at hat
    omega
  · have hle := h.offset_le token htoken
    simp only [Cursor.after, Text.byteLength_append] at hle
    omega

end borders

/-- Layout at the ends of a text and of its tokens leaves the tokens as they are. -/
theorem Laid.insert {c stop : Cursor} {tokens : List Token} {pre gap post : List Char}
    (h : Laid c tokens stop) (hstop : ∀ a ∈ stop.rest, isLayout a = true)
    (hrest : c.rest = pre ++ post) (hgap : ∀ a ∈ gap, isLayout a = true)
    (hplace : Borders c pre post tokens) :
    ∃ tail, (∀ a ∈ tail, isLayout a = true) ∧
      Respaced stop.rest tail (lexemesOf tokens) c.rest (pre ++ (gap ++ post)) := by
  induction h generalizing pre with
  | nil c =>
    rw [hrest, List.forall_mem_append] at hstop
    refine ⟨pre ++ (gap ++ post), ?_, .nil⟩
    simp only [List.forall_mem_append]
    exact ⟨hstop.1, hgap, hstop.2⟩
  | @cons c d stop r lexeme rest tokens hd htext hsolid hmore ih =>
    obtain ⟨before, hbefore, hpass⟩ := c.passes_skipLayout
    rw [← hd] at hpass
    have hbehind : ∀ tail, pre = before ++ (lexeme ++ tail) → rest = tail ++ post →
        ∃ tail', (∀ a ∈ tail', isLayout a = true) ∧ Respaced stop.rest tail'
          (lexemesOf (d.token r lexeme rest :: tokens)) c.rest (pre ++ (gap ++ post)) := by
      rintro tail rfl htail
      obtain ⟨tail', htail', hrespaced⟩ := ih hstop htail (hplace.behind hsolid.1 hpass)
      have htoken := Respaced.token d r lexeme hbefore hbefore id hrespaced
      refine ⟨tail', htail', ?_⟩
      rw [hpass.1, htext]
      simpa using htoken
    have hwhole := hpass.1
    rw [hrest] at hwhole
    rcases List.append_eq_append_iff.mp hwhole with ⟨after, rfl, rfl⟩ | ⟨within, rfl, hwithin⟩
    · exact ⟨stop.rest, hstop, hrest ▸ hmore.insert_before htext hbefore hgap⟩
    rw [htext] at hwithin
    rcases List.append_eq_append_iff.mp hwithin with ⟨tail, rfl, hpost⟩ | ⟨more, rfl, rfl⟩
    · exact hbehind tail rfl hpost
    by_cases hfirst : within = []
    · subst hfirst
      have hlayout : ∀ a ∈ before ++ [], isLayout a = true := by simpa using hbefore
      have hinsert := hmore.insert_before (r := r) htext hlayout hgap
      refine ⟨stop.rest, hstop, ?_⟩
      simpa [hrest, htext] using hinsert
    by_cases hlast : more = []
    · subst hlast
      exact hbehind [] (by simp) rfl
    exact absurd hplace (hmore.not_borders_within hfirst hlast hpass)

end Grammar

end Reckon
