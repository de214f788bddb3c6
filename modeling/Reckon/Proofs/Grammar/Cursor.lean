import Reckon.Grammar.Matcher
import Reckon.Proofs.Grammar.Lexeme

/-!
Moving through a text. A cursor passes a stretch of text to reach a later one;
skipping layout passes layout only and leads to where no layout stands.
-/

namespace Reckon.Grammar.Cursor

/-- The cursor `d` stands right behind the stretch `text` at `c`. -/
def Passes (c : Cursor) (text : List Char) (d : Cursor) : Prop :=
  c.rest = text ++ d.rest ∧ d.offset = c.offset + Text.byteLength text

theorem Passes.refl (c : Cursor) : c.Passes [] c := ⟨rfl, rfl⟩

theorem Passes.trans {c d e : Cursor} {first second : List Char} (h : c.Passes first d)
    (h' : d.Passes second e) : c.Passes (first ++ second) e := by
  obtain ⟨hrest, hoffset⟩ := h
  obtain ⟨hrest', hoffset'⟩ := h'
  constructor
  · rw [hrest, hrest', List.append_assoc]
  · rw [hoffset', hoffset, Text.byteLength_append, Nat.add_assoc]

theorem Passes.offset_le {c d : Cursor} {text : List Char} (h : c.Passes text d) :
    c.offset ≤ d.offset := by
  rw [h.2]
  exact Nat.le_add_right _ _

theorem Passes.length_eq {c d : Cursor} {text : List Char} (h : c.Passes text d) :
    c.rest.length = text.length + d.rest.length := by
  rw [h.1, List.length_append]

theorem passes_after {c : Cursor} {lexeme rest : List Char} (h : c.rest = lexeme ++ rest) :
    c.Passes lexeme (c.after lexeme rest) := ⟨h, rfl⟩

theorem passes_after_cons {c : Cursor} {a : Char} {rest : List Char} (h : c.rest = a :: rest) :
    c.Passes [a] (c.after [a] rest) := passes_after h

theorem offset_lt_after (c : Cursor) (a : Char) (more rest : List Char) :
    c.offset < (c.after (a :: more) rest).offset := by
  have hsize := a.utf8Size_pos
  simp only [after, Text.byteLength]
  omega

@[simp] theorem after_rest (c : Cursor) (lexeme rest : List Char) :
    (c.after lexeme rest).rest = rest := rfl

theorem passes_skipLayout (c : Cursor) :
    ∃ layout, (∀ a ∈ layout, isLayout a = true) ∧ c.Passes layout c.skipLayout :=
  ⟨c.rest.takeWhile isLayout, fun _ h => List.mem_takeWhile_imp h,
    passes_after List.takeWhile_append_dropWhile.symm⟩

theorem offset_le_skipLayout (c : Cursor) : c.offset ≤ c.skipLayout.offset :=
  (passes_skipLayout c).choose_spec.2.offset_le

theorem length_skipLayout_le (c : Cursor) : c.skipLayout.rest.length ≤ c.rest.length := by
  obtain ⟨layout, -, h⟩ := c.passes_skipLayout
  rw [h.length_eq]
  exact Nat.le_add_left _ _

/-- Nothing is skipped where no layout stands. -/
theorem skipLayout_eq_self {c : Cursor} (h : ∀ a ∈ c.rest.head?, isLayout a = false) :
    c.skipLayout = c := by
  obtain ⟨rest, offset⟩ := c
  cases rest with
  | nil => rfl
  | cons a rest =>
    have ha : isLayout a = false := h a rfl
    simp [skipLayout, after, ha, Text.byteLength]

theorem not_isLayout_skipLayout (c : Cursor) :
    ∀ a ∈ c.skipLayout.rest.head?, isLayout a = false := by
  intro a ha
  have hdrop : (c.rest.dropWhile isLayout).head? = some a := ha
  have h := List.head?_dropWhile_not isLayout c.rest
  rw [hdrop] at h
  simpa using h

@[simp] theorem skipLayout_skipLayout (c : Cursor) : c.skipLayout.skipLayout = c.skipLayout :=
  skipLayout_eq_self c.not_isLayout_skipLayout

/-- A later cursor has no earlier place behind its layout. -/
theorem Passes.skipLayout_le {c d : Cursor} {text : List Char} (h : c.Passes text d) :
    c.skipLayout.offset ≤ d.skipLayout.offset := by
  obtain ⟨hrest, hoffset⟩ := h
  have hbytes : ∀ text : List Char,
      Text.byteLength ((text ++ d.rest).takeWhile isLayout) ≤
        Text.byteLength text + Text.byteLength (d.rest.takeWhile isLayout) := by
    intro text
    induction text with
    | nil => simp [Text.byteLength]
    | cons a text ih =>
      by_cases ha : isLayout a = true
      · simp only [List.cons_append, List.takeWhile_cons_of_pos ha, Text.byteLength]
        omega
      · simp [List.takeWhile_cons_of_neg ha, Text.byteLength]
  have hlayout := hbytes text
  rw [← hrest] at hlayout
  simp only [skipLayout, after]
  omega

end Reckon.Grammar.Cursor
