import Reckon.Double.Decimal
import Reckon.Proofs.Grammar.Lexeme
import Reckon.Proofs.Text.Basic

/-!
Number literals denote numbers. A literal of the grammar has no white space to
be trimmed, and the reader of doubles accepts every one of them.
-/

namespace Reckon

open Grammar Grammar.Lexeme

/-- There is no white space in a number. -/
theorem Grammar.Lexeme.IsNumber.isBlank_eq_false {lexeme : List Char} (h : IsNumber lexeme) :
    ∀ c ∈ lexeme, Text.isBlank c = false :=
  fun c hc => isBlank_eq_false_of_isInk (h.isInk c hc)

namespace Double

theorem isSome_exponentOf? {exponent : List Char} (h : IsExponent exponent) :
    (exponentOf? exponent).isSome := by
  cases h with
  | absent => rfl
  | @plain mark digits hmark hne hdigits =>
    obtain ⟨d, more, rfl⟩ := List.exists_cons_of_ne_nil hne
    have hd := hdigits d List.mem_cons_self
    have hsign : splitSign (d :: more) = (false, d :: more) := by
      refine splitSign_unsigned ?_ ?_ <;> rintro ⟨⟩ <;> cases hd
    have hall : (d :: more).all Char.isDigit = true := List.all_eq_true.mpr hdigits
    simp only [exponentOf?, hsign]
    rw [if_pos ⟨hmark, hne, hall⟩]
    rfl
  | @signed mark sign digits hmark hsign hne hdigits =>
    obtain ⟨negative, hsplit⟩ : ∃ negative, splitSign (sign :: digits) = (negative, digits) := by
      rcases hsign with rfl | rfl <;> exact ⟨_, rfl⟩
    have hall : digits.all Char.isDigit = true := List.all_eq_true.mpr hdigits
    simp only [exponentOf?, hsplit]
    rw [if_pos ⟨hmark, hne, hall⟩]
    rfl

theorem isSome_ofPlain? {text : List Char} (h : IsNumber text) (negative : Bool) :
    (ofPlain? negative text).isSome := by
  cases h with
  | @whole digits exponent hne hdigits hexponent =>
    have hhead := hexponent.head nothing_follows
    rw [List.append_nil] at hhead
    have hlongest := longest_append hdigits fun c hc => (hhead c hc).1
    simp only [longest, Prod.mk.injEq] at hlongest
    obtain ⟨e, he⟩ := Option.isSome_iff_exists.mp (isSome_exponentOf? hexponent)
    have hpoint : ∀ more, exponent ≠ '.' :: more := by
      rintro more rfl
      exact (hhead '.' rfl).2 rfl
    simp only [ofPlain?, hlongest.1, hlongest.2]
    rw [if_neg fun h => hne h.1, he]
    rfl
  | @pointed whole fraction exponent hne hwhole hfraction hexponent =>
    have hhead := hexponent.head nothing_follows
    rw [List.append_nil] at hhead
    have hlongest := longest_append hfraction fun c hc => (hhead c hc).1
    have hpoint : ∀ c ∈ ('.' :: (fraction ++ exponent)).head?, c.isDigit = false := by
      rintro c ⟨⟩
      rfl
    have hstart := longest_append hwhole hpoint
    simp only [longest, Prod.mk.injEq] at hlongest hstart
    obtain ⟨e, he⟩ := Option.isSome_iff_exists.mp (isSome_exponentOf? hexponent)
    have htext : whole ++ '.' :: fraction ++ exponent =
        whole ++ ('.' :: (fraction ++ exponent)) := by simp
    rw [htext]
    simp only [ofPlain?, hstart.1, hstart.2, hlongest.1, hlongest.2]
    rw [if_neg fun h => hne.elim (· h.1) (· h.2), he]
    rfl

/-- Every number of the grammar is a double. -/
theorem isSome_ofText? {text : List Char} (h : IsNumber text) : (ofText? text).isSome := by
  have hsign : splitSign text = (false, text) := by
    obtain ⟨c, more, rfl, hword, -⟩ := h.head
    refine splitSign_unsigned ?_ ?_ <;> rintro ⟨⟩ <;> cases hword
  simp only [ofText?, hsign]
  split
  · rfl
  · rfl
  · rfl
  · exact isSome_ofPlain? h false

end Double

end Reckon
