import Reckon.Grammar.Lexeme
import Reckon.Text.Basic
import Mathlib.Data.List.TakeWhile

/-!
What the readers of lexemes give back. A reader splits its text into a lexeme
that is not empty and the rest, and the lexeme of a number has one of two
forms. A lexeme that a reader takes whole is also taken in front of layout.
-/

namespace Reckon.Grammar.Lexeme

theorem eq_append_of_longest {member : Char → Bool} {text lexeme rest : List Char}
    (h : longest member text = (lexeme, rest)) :
    text = lexeme ++ rest ∧ ∀ c ∈ lexeme, member c = true := by
  simp only [longest, Prod.mk.injEq] at h
  obtain ⟨rfl, rfl⟩ := h
  exact ⟨List.takeWhile_append_dropWhile.symm, fun c hc => List.mem_takeWhile_imp hc⟩

/-- A stretch of characters of the class is taken up to the first character outside it. -/
theorem longest_append {member : Char → Bool} {text rest : List Char}
    (h : ∀ c ∈ text, member c = true) (hrest : ∀ c ∈ rest.head?, member c = false) :
    longest member (text ++ rest) = (text, rest) := by
  induction text with
  | nil =>
    cases rest with
    | nil => rfl
    | cons c rest =>
      have hc : member c = false := hrest c rfl
      simp [longest, hc]
  | cons c text ih =>
    have hc : member c = true := h c List.mem_cons_self
    have hmore := ih fun d hd => h d (List.mem_cons_of_mem c hd)
    simp only [longest, Prod.mk.injEq] at hmore
    simp [longest, hc, hmore.1, hmore.2]

theorem exactly?_cons (a : Char) (rest : List Char) :
    exactly? [a] (a :: rest) = some ([a], rest) := by
  simp [exactly?, List.isPrefixOf]

theorem exactly?_eq_some {a : Char} {text lexeme rest : List Char}
    (h : exactly? [a] text = some (lexeme, rest)) : lexeme = [a] ∧ text = a :: rest := by
  cases text with
  | nil => cases h
  | cons b text =>
    by_cases hb : a = b
    · subst hb
      rw [exactly?_cons] at h
      cases h
      exact ⟨rfl, rfl⟩
    · simp [exactly?, List.isPrefixOf, hb] at h

theorem exactly?_eq_none {a : Char} {text : List Char} (h : text.head? ≠ some a) :
    exactly? [a] text = none := by
  cases hfound : exactly? [a] text with
  | none => rfl
  | some found =>
    obtain ⟨-, rfl⟩ := exactly?_eq_some hfound
    exact absurd rfl h

/-- The characters that numbers and names start with. -/
def isWord (a : Char) : Bool := a.isAlphanum || a = '_' || a = '.'

theorem ne_of_isWord {a b : Char} (ha : isWord a = true) (hb : isWord b = false) : a ≠ b := by
  rintro rfl
  rw [ha] at hb
  cases hb

theorem isWord_of_isDigit {a : Char} (h : a.isDigit = true) : isWord a = true := by
  simp [isWord, Char.isAlphanum, h]

theorem isWord_of_isNamePart {a : Char} (h : isNamePart a = true) : isWord a = true := by
  simp only [isNamePart, Bool.or_eq_true, decide_eq_true_eq] at h
  simp only [isWord, Bool.or_eq_true, decide_eq_true_eq]
  exact .inl h

theorem isNamePart_of_isNameStart {a : Char} (h : isNameStart a = true) :
    isNamePart a = true := by
  simp only [isNameStart, Bool.or_eq_true, decide_eq_true_eq] at h
  simp only [isNamePart, Char.isAlphanum, Bool.or_eq_true, decide_eq_true_eq]
  exact h.imp_left .inl

theorem isWord_of_isNameStart {a : Char} (h : isNameStart a = true) : isWord a = true :=
  isWord_of_isNamePart (isNamePart_of_isNameStart h)

theorem isAlpha_iff {a : Char} : a.isAlpha = true ↔
    ('A'.val ≤ a.val ∧ a.val ≤ 'Z'.val) ∨ ('a'.val ≤ a.val ∧ a.val ≤ 'z'.val) := by
  have hupper : a.isUpper = true ↔ 'A'.val ≤ a.val ∧ a.val ≤ 'Z'.val := decide_eq_true_iff
  have hlower : a.isLower = true ↔ 'a'.val ≤ a.val ∧ a.val ≤ 'z'.val :=
    Bool.and_eq_true_iff.trans (and_congr decide_eq_true_iff decide_eq_true_iff)
  rw [← hupper, ← hlower, ← Bool.or_eq_true]
  exact Iff.rfl

theorem toNat_of_isWord {a : Char} (h : isWord a = true) : 46 ≤ a.toNat ∧ a.toNat ≤ 122 := by
  simp only [isWord, Char.isAlphanum, isAlpha_iff, Char.isDigit, Bool.or_eq_true,
    Bool.and_eq_true, decide_eq_true_eq] at h
  have hrange : ∀ {low high : UInt32}, 46 ≤ low.toNat → high.toNat ≤ 122 → low ≤ a.val →
      a.val ≤ high → 46 ≤ a.toNat ∧ a.toNat ≤ 122 := by
    intro low high hfirst hlast hlow hhigh
    exact ⟨Nat.le_trans hfirst (UInt32.le_iff_toNat_le.mp hlow),
      Nat.le_trans (UInt32.le_iff_toNat_le.mp hhigh) hlast⟩
  rcases h with (((⟨hlow, hhigh⟩ | ⟨hlow, hhigh⟩) | ⟨hlow, hhigh⟩) | rfl) | rfl
  · exact hrange (by decide) (by decide) hlow hhigh
  · exact hrange (by decide) (by decide) hlow hhigh
  · exact hrange (by decide) (by decide) hlow hhigh
  · decide
  · decide

/-- The characters of brackets and symbols. -/
def marks : List Char := ['+', '-', '!', '*', '/', '<', '>', '=', '&', '|', '(', ')', '[', ']']

/-- The characters that tokens are made of. -/
def isInk (a : Char) : Bool := isWord a || marks.contains a

theorem isInk_of_isWord {a : Char} (h : isWord a = true) : isInk a = true := by
  simp [isInk, h]

theorem toNat_of_isInk {a : Char} (h : isInk a = true) : 33 ≤ a.toNat ∧ a.toNat ≤ 125 := by
  rw [isInk, Bool.or_eq_true, List.contains_iff_mem] at h
  rcases h with hword | hmark
  · have hcode := toNat_of_isWord hword
    omega
  · have hmarks : (marks.all fun a => decide (33 ≤ a.toNat ∧ a.toNat ≤ 125)) = true := by decide
    exact of_decide_eq_true (List.all_eq_true.mp hmarks a hmark)

/-- There is no white space in a token. -/
theorem isBlank_eq_false_of_isInk {a : Char} (h : isInk a = true) : Text.isBlank a = false := by
  have hcode := toNat_of_isInk h
  simp only [Text.isBlank, Text.inRanges, Text.blankRanges, List.any_cons, List.any_nil,
    Bool.or_false, Bool.or_eq_false_iff, Bool.and_eq_false_iff, decide_eq_false_iff_not]
  omega

theorem isBlank_eq_false_of_isWord {a : Char} (h : isWord a = true) : Text.isBlank a = false :=
  isBlank_eq_false_of_isInk (isInk_of_isWord h)

/-- The text of an exponent: nothing, or a mark, perhaps a sign, and digits. -/
inductive IsExponent : List Char → Prop
  | absent : IsExponent []
  | plain {mark : Char} {digits : List Char} (hmark : mark = 'e' ∨ mark = 'E')
      (hne : digits ≠ []) (hdigits : ∀ c ∈ digits, c.isDigit = true) :
      IsExponent (mark :: digits)
  | signed {mark sign : Char} {digits : List Char} (hmark : mark = 'e' ∨ mark = 'E')
      (hsign : sign = '+' ∨ sign = '-') (hne : digits ≠ [])
      (hdigits : ∀ c ∈ digits, c.isDigit = true) :
      IsExponent (mark :: sign :: digits)

/-- The text of a number: digits, perhaps with a point among, before or behind them, and
perhaps an exponent. -/
inductive IsNumber : List Char → Prop
  | whole {digits exponent : List Char} (hne : digits ≠ [])
      (hdigits : ∀ c ∈ digits, c.isDigit = true) (hexponent : IsExponent exponent) :
      IsNumber (digits ++ exponent)
  | pointed {whole fraction exponent : List Char} (hne : whole ≠ [] ∨ fraction ≠ [])
      (hwhole : ∀ c ∈ whole, c.isDigit = true) (hfraction : ∀ c ∈ fraction, c.isDigit = true)
      (hexponent : IsExponent exponent) :
      IsNumber (whole ++ '.' :: fraction ++ exponent)

/-- Either an exponent is split off or nothing is. -/
theorem isExponent_of_optionalExponent {text exponent rest : List Char}
    (h : optionalExponent text = (exponent, rest)) :
    IsExponent exponent ∧ text = exponent ++ rest := by
  have habsent : ∀ {t : List Char}, (([] : List Char), t) = (exponent, rest) →
      IsExponent exponent ∧ t = exponent ++ rest := by
    rintro t ⟨⟩
    exact ⟨.absent, rfl⟩
  unfold optionalExponent at h
  split at h
  · next mark rest' =>
    split at h
    · next hmark =>
      split at h
      · next sign digits =>
        split at h
        · next hsign =>
          split at h
          · exact habsent h
          · next found after hne hlongest =>
            obtain ⟨rfl, hall⟩ := eq_append_of_longest hlongest
            cases h
            exact ⟨.signed hmark hsign (fun h => hne h) hall, rfl⟩
        · split at h
          · exact habsent h
          · next found after hne hlongest =>
            obtain ⟨hsplit, hall⟩ := eq_append_of_longest hlongest
            cases h
            exact ⟨.plain hmark (fun h => hne h) hall, by rw [hsplit]; rfl⟩
      · exact habsent h
    · exact habsent h
  · exact habsent h

/-- A number is split off in one of its forms. -/
theorem isNumber_of_number? {text lexeme rest : List Char}
    (h : number? text = some (lexeme, rest)) : IsNumber lexeme ∧ text = lexeme ++ rest := by
  unfold number? at h
  split at h
  · next after hlongest =>
    obtain ⟨rfl, -⟩ := eq_append_of_longest hlongest
    split at h
    · cases h
    · next fraction after' hne hfraction =>
      obtain ⟨rfl, hall⟩ := eq_append_of_longest hfraction
      rcases hexp : optionalExponent after' with ⟨exponent, rest'⟩
      obtain ⟨hexponent, rfl⟩ := isExponent_of_optionalExponent hexp
      simp only [hexp, Option.some.injEq, Prod.mk.injEq] at h
      obtain ⟨rfl, rfl⟩ := h
      have hnone : ∀ c ∈ ([] : List Char), c.isDigit = true := fun c hc => nomatch hc
      exact ⟨.pointed (.inr fun h => hne h) hnone hall hexponent, by simp⟩
  · cases h
  · next whole after hne hlongest =>
    obtain ⟨rfl, hall⟩ := eq_append_of_longest hlongest
    rcases hfraction : longest Char.isDigit after with ⟨fraction, after'⟩
    obtain ⟨rfl, hall'⟩ := eq_append_of_longest hfraction
    rcases hexp : optionalExponent after' with ⟨exponent, rest'⟩
    obtain ⟨hexponent, rfl⟩ := isExponent_of_optionalExponent hexp
    simp only [hfraction, hexp, Option.some.injEq, Prod.mk.injEq] at h
    obtain ⟨rfl, rfl⟩ := h
    exact ⟨.pointed (.inl hne) hall hall' hexponent, by simp⟩
  · next whole after _ hne _ hlongest =>
    obtain ⟨rfl, hall⟩ := eq_append_of_longest hlongest
    rcases hexp : optionalExponent after with ⟨exponent, rest'⟩
    obtain ⟨hexponent, rfl⟩ := isExponent_of_optionalExponent hexp
    simp only [hexp, Option.some.injEq, Prod.mk.injEq] at h
    obtain ⟨rfl, rfl⟩ := h
    exact ⟨.whole (fun h => hne h) hall hexponent, by simp⟩

theorem isNameStart_eq_false_of_isDigit {c : Char} (h : c.isDigit = true) :
    isNameStart c = false := by
  simp only [Char.isDigit, Bool.and_eq_true, decide_eq_true_eq] at h
  have hne : c ≠ '_' := by
    rintro rfl
    exact absurd h (by decide)
  rw [isNameStart, Bool.or_eq_false_iff, Bool.eq_false_iff, Ne, isAlpha_iff]
  grind

/-- A number starts like a word, but not like a name. -/
theorem IsNumber.head {lexeme : List Char} (h : IsNumber lexeme) :
    ∃ c more, lexeme = c :: more ∧ isWord c = true ∧ isNameStart c = false := by
  have hdigit : ∀ {c : Char}, c.isDigit = true → isWord c = true ∧ isNameStart c = false :=
    fun h => ⟨isWord_of_isDigit h, isNameStart_eq_false_of_isDigit h⟩
  cases h with
  | @whole digits exponent hne hdigits _ =>
    obtain ⟨c, more, rfl⟩ := List.exists_cons_of_ne_nil hne
    exact ⟨c, more ++ exponent, rfl, hdigit (hdigits c List.mem_cons_self)⟩
  | @pointed whole fraction exponent _ hwhole _ _ =>
    cases whole with
    | nil => exact ⟨'.', fraction ++ exponent, rfl, by decide⟩
    | cons c more => exact ⟨c, _, rfl, hdigit (hwhole c List.mem_cons_self)⟩

/-- What holds of the characters of words and of signs holds all through an exponent. -/
theorem IsExponent.forall_mem {p : Char → Prop} {exponent : List Char} (h : IsExponent exponent)
    (hword : ∀ c, isWord c = true → p c) (hplus : p '+') (hminus : p '-') :
    ∀ c ∈ exponent, p c := by
  have hdigit : ∀ {digits : List Char}, (∀ c ∈ digits, c.isDigit = true) → ∀ c ∈ digits, p c :=
    fun h c hc => hword c (isWord_of_isDigit (h c hc))
  have hmark : ∀ {mark : Char}, mark = 'e' ∨ mark = 'E' → p mark := by
    rintro mark (rfl | rfl) <;> exact hword _ (by decide)
  cases h with
  | absent => exact nofun
  | plain h _ hdigits => exact List.forall_mem_cons.mpr ⟨hmark h, hdigit hdigits⟩
  | signed h hsign _ hdigits =>
    refine List.forall_mem_cons.mpr ⟨hmark h, List.forall_mem_cons.mpr ⟨?_, hdigit hdigits⟩⟩
    rcases hsign with rfl | rfl
    · exact hplus
    · exact hminus

theorem IsNumber.forall_mem {p : Char → Prop} {lexeme : List Char} (h : IsNumber lexeme)
    (hword : ∀ c, isWord c = true → p c) (hplus : p '+') (hminus : p '-') :
    ∀ c ∈ lexeme, p c := by
  have hdigit : ∀ {digits : List Char}, (∀ c ∈ digits, c.isDigit = true) → ∀ c ∈ digits, p c :=
    fun h c hc => hword c (isWord_of_isDigit (h c hc))
  cases h with
  | whole _ hdigits hexponent =>
    exact List.forall_mem_append.mpr ⟨hdigit hdigits, hexponent.forall_mem hword hplus hminus⟩
  | pointed _ hwhole hfraction hexponent =>
    refine List.forall_mem_append.mpr ⟨List.forall_mem_append.mpr ⟨hdigit hwhole, ?_⟩,
      hexponent.forall_mem hword hplus hminus⟩
    exact List.forall_mem_cons.mpr ⟨hword '.' (by decide), hdigit hfraction⟩

theorem IsNumber.isInk {lexeme : List Char} (h : IsNumber lexeme) :
    ∀ c ∈ lexeme, isInk c = true :=
  h.forall_mem (fun _ => isInk_of_isWord) (by decide) (by decide)

theorem nothing_follows : ∀ c ∈ ([] : List Char).head?, isWord c = false := nofun

theorem isDigit_eq_false_of_isWord {c : Char} (h : isWord c = false) : c.isDigit = false := by
  simp only [isWord, Char.isAlphanum, Bool.or_eq_false_iff] at h
  exact h.1.1.2

theorem IsExponent.head {exponent rest : List Char} (h : IsExponent exponent)
    (hrest : ∀ c ∈ rest.head?, isWord c = false) :
    ∀ c ∈ (exponent ++ rest).head?, c.isDigit = false ∧ c ≠ '.' := by
  have hmark : ∀ {mark : Char}, mark = 'e' ∨ mark = 'E' → mark.isDigit = false ∧ mark ≠ '.' := by
    rintro mark (rfl | rfl) <;> decide
  cases h with
  | absent =>
    intro c hc
    have hword := hrest c hc
    refine ⟨isDigit_eq_false_of_isWord hword, ?_⟩
    rintro rfl
    cases hword
  | plain h _ _ =>
    rintro c ⟨⟩
    exact hmark h
  | signed h _ _ _ =>
    rintro c ⟨⟩
    exact hmark h

theorem optionalExponent_append {exponent rest : List Char} (h : IsExponent exponent)
    (hrest : ∀ c ∈ rest.head?, isWord c = false) :
    optionalExponent (exponent ++ rest) = (exponent, rest) := by
  have hdigit : ∀ c ∈ rest.head?, c.isDigit = false :=
    fun c hc => isDigit_eq_false_of_isWord (hrest c hc)
  cases h with
  | absent =>
    cases rest with
    | nil => rfl
    | cons c rest =>
      have hc : ¬ (c = 'e' ∨ c = 'E') := by
        have hword := hrest c rfl
        rintro (rfl | rfl) <;> cases hword
      simp only [List.nil_append, optionalExponent, if_neg hc]
  | @plain mark digits hmark hne hdigits =>
    obtain ⟨d, more, rfl⟩ := List.exists_cons_of_ne_nil hne
    have hsign : ¬ (d = '+' ∨ d = '-') := by
      have hd := hdigits d List.mem_cons_self
      rintro (rfl | rfl) <;> cases hd
    have hlongest := longest_append hdigits hdigit
    rw [List.cons_append] at hlongest
    simp only [List.cons_append, optionalExponent, if_pos hmark, if_neg hsign, hlongest]
  | @signed mark sign digits hmark hsign hne hdigits =>
    obtain ⟨d, more, rfl⟩ := List.exists_cons_of_ne_nil hne
    have hlongest := longest_append hdigits hdigit
    rw [List.cons_append] at hlongest
    simp only [List.cons_append, optionalExponent, if_pos hmark, if_pos hsign, hlongest]

/-- A number is split off in front of what no number or name goes on with. -/
theorem number?_append {lexeme rest : List Char} (h : IsNumber lexeme)
    (hrest : ∀ c ∈ rest.head?, isWord c = false) :
    number? (lexeme ++ rest) = some (lexeme, rest) := by
  cases h with
  | @whole digits exponent hne hdigits hexponent =>
    have hhead := hexponent.head hrest
    have hlongest := longest_append hdigits fun c hc => (hhead c hc).1
    have hsplit := optionalExponent_append hexponent hrest
    obtain ⟨d, more, rfl⟩ := List.exists_cons_of_ne_nil hne
    rw [List.append_assoc]
    unfold number?
    rw [hlongest]
    cases htail : exponent ++ rest with
    | nil =>
      rw [htail] at hsplit
      simp only [hsplit]
    | cons c tail =>
      have hc : c ≠ '.' := (hhead c (by rw [htail]; rfl)).2
      rw [htail] at hsplit
      split
      · next heq => cases heq
      · next heq => cases heq
      · next heq =>
        cases heq
        exact absurd rfl hc
      · next heq =>
        cases heq
        simp only [hsplit]
  | @pointed whole fraction exponent hne hwhole hfraction hexponent =>
    have hhead := hexponent.head hrest
    have hlongest := longest_append hfraction fun c hc => (hhead c hc).1
    have hsplit := optionalExponent_append hexponent hrest
    have hpoint : ∀ c ∈ ('.' :: fraction ++ exponent ++ rest).head?, c.isDigit = false := by
      rintro c ⟨⟩
      rfl
    have hstart := longest_append hwhole hpoint
    have htext : whole ++ '.' :: fraction ++ exponent ++ rest =
        whole ++ ('.' :: (fraction ++ (exponent ++ rest))) := by simp
    have htext' : '.' :: fraction ++ exponent ++ rest =
        '.' :: (fraction ++ (exponent ++ rest)) := by simp
    rw [htext'] at hstart
    unfold number?
    rw [htext, hstart]
    cases whole with
    | nil =>
      obtain ⟨d, more, rfl⟩ := List.exists_cons_of_ne_nil (hne.resolve_left fun h => h rfl)
      simp only [hlongest, hsplit]
      simp
    | cons d more =>
      simp only [hlongest, hsplit]

/-- A name is split off with its first character and all that go on with it. -/
theorem identifier?_eq_some {text lexeme rest : List Char}
    (h : identifier? text = some (lexeme, rest)) :
    text = lexeme ++ rest ∧
      ∃ c more, lexeme = c :: more ∧ isNameStart c = true ∧ ∀ d ∈ more, isNamePart d = true := by
  unfold identifier? at h
  split at h
  · next c after =>
    split at h
    · next hstart =>
      rcases hlongest : longest isNamePart after with ⟨more, rest'⟩
      obtain ⟨rfl, hall⟩ := eq_append_of_longest hlongest
      simp only [hlongest, Option.some.injEq, Prod.mk.injEq] at h
      obtain ⟨rfl, rfl⟩ := h
      exact ⟨rfl, c, more, rfl, hstart, hall⟩
    · cases h
  · cases h

/-- A name is split off in front of what no name goes on with. -/
theorem identifier?_append {c : Char} {more rest : List Char} (hstart : isNameStart c = true)
    (hmore : ∀ d ∈ more, isNamePart d = true) (hrest : ∀ d ∈ rest.head?, isWord d = false) :
    identifier? (c :: more ++ rest) = some (c :: more, rest) := by
  have hpart : ∀ d ∈ rest.head?, isNamePart d = false := by
    intro d hd
    by_contra hpart
    have hword := isWord_of_isNamePart (by simpa using hpart)
    rw [hrest d hd] at hword
    cases hword
  have hlongest := longest_append hmore hpart
  simp only [List.cons_append, identifier?, hstart, if_true, hlongest]

/-- Neither a number nor a name starts with anything but a part of a word. -/
theorem word?_eq_none_of_head {text : List Char} (h : ∀ a ∈ text.head?, isWord a = false) :
    number? text = none ∧ identifier? text = none := by
  constructor
  · cases hnumber : number? text with
    | none => rfl
    | some found =>
      obtain ⟨hform, rfl⟩ := isNumber_of_number? hnumber
      obtain ⟨a, more, hlexeme, ha, -⟩ := hform.head
      rw [h a (by simp [hlexeme])] at ha
      cases ha
  · cases hname : identifier? text with
    | none => rfl
    | some found =>
      obtain ⟨rfl, a, more, hlexeme, hstart, -⟩ := identifier?_eq_some hname
      have ha := isWord_of_isNameStart hstart
      rw [h a (by simp [hlexeme])] at ha
      cases ha

/-- No text starts with a number as well as with a name. -/
theorem number?_eq_none_of_identifier? {text : List Char} (h : (identifier? text).isSome) :
    number? text = none := by
  obtain ⟨⟨name, rest⟩, h⟩ := Option.isSome_iff_exists.mp h
  obtain ⟨rfl, c, more, rfl, hstart, -⟩ := identifier?_eq_some h
  cases hnumber : number? (c :: more ++ rest) with
  | none => rfl
  | some found =>
    obtain ⟨hform, htext⟩ := isNumber_of_number? hnumber
    obtain ⟨d, digits, hd, -, hhead⟩ := hform.head
    rw [hd, List.cons_append, List.cons_append, List.cons.injEq] at htext
    obtain ⟨rfl, -⟩ := htext
    rw [hstart] at hhead
    cases hhead

end Reckon.Grammar.Lexeme
