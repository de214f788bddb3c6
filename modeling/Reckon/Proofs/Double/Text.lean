import Mathlib.Data.List.TakeWhile
import Reckon.Proofs.Double.Shortest

/-!
Doubles are read from the texts that they are written as: digits with a point
among or behind them, which a sign may precede, or one of the three names.
-/

namespace Reckon

open Text

namespace Decimal

/-- Trimming takes zeros off, one for each place. -/
theorem exists_trimmed_eq (digits : List Char) (places : Nat) :
    ∃ k, digits = List.replicate k '0' ++ (trimmed digits places).1 ∧
      places = k + (trimmed digits places).2 := by
  fun_induction trimmed digits places with
  | case1 rest places ih =>
    obtain ⟨k, hdigits, hplaces⟩ := ih
    refine ⟨k + 1, ?_, by omega⟩
    rw [List.replicate_succ, List.cons_append, ← hdigits]
  | case2 digits places => exact ⟨0, rfl, (Nat.zero_add places).symm⟩

/-- The positional text of a decimal: digits on both sides of a point, at least one of them before
it, which stand for the decimal. -/
theorem exists_positional_eq (d : Decimal) :
    ∃ whole fraction, d.positional = whole ++ '.' :: fraction ∧ whole ≠ [] ∧
      (∀ a ∈ whole ++ fraction, a.isDigit = true) ∧
      ∀ negative, Double.ofDecimal negative (numberOf (whole ++ fraction)) (-fraction.length) =
        Double.ofDecimal negative d.coefficient d.exponent := by
  have hcoefficient := numberOf_decimalDigits d.coefficient
  have hdigits : ∀ a ∈ decimalDigits d.coefficient, a.isDigit = true :=
    fun _ => isDigit_of_mem_decimalDigits
  have hne := decimalDigits_ne_nil d.coefficient
  rw [positional]
  generalize decimalDigits d.coefficient = digits at hcoefficient hdigits hne
  by_cases hexponent : 0 ≤ d.exponent
  · rw [if_pos hexponent]
    refine ⟨digits ++ List.replicate d.exponent.toNat '0', [], rfl, by simp [hne], ?_, ?_⟩
    · rw [List.append_nil]
      intro a ha
      exact (List.mem_append.mp ha).elim (hdigits a) isDigit_of_mem_zeros
    · intro negative
      rw [List.append_nil, numberOf_append_zeros, hcoefficient, Double.ofDecimal_mul_tenTo]
      congr 1
      simp only [List.length_nil]
      omega
  · rw [if_neg hexponent]
    obtain ⟨k, hreversed, hplaces⟩ := exists_trimmed_eq digits.reverse (-d.exponent).toNat
    rcases htrimmed : trimmed digits.reverse (-d.exponent).toNat with ⟨reversed, places⟩
    rw [htrimmed] at hreversed hplaces
    have hkept : digits = reversed.reverse ++ List.replicate k '0' := by
      rw [← List.reverse_reverse digits, hreversed, List.reverse_append, List.reverse_replicate]
    simp only
    generalize hpadded : List.replicate (places + 1 - reversed.reverse.length) '0' ++
      reversed.reverse = padded
    have hlength : places + 1 ≤ padded.length := by
      rw [← hpadded, List.length_append, List.length_replicate]
      omega
    have hfraction : (padded.drop (padded.length - places)).length = places := by
      rw [List.length_drop]
      omega
    have hnumber : d.coefficient = numberOf padded * tenTo k := by
      rw [← hpadded, numberOf_zeros_append, ← numberOf_append_zeros, ← hkept, hcoefficient]
    refine ⟨padded.take (padded.length - places), padded.drop (padded.length - places), rfl, ?_,
      ?_, ?_⟩
    · rw [← List.length_pos_iff, List.length_take]
      omega
    · rw [List.take_append_drop, ← hpadded]
      intro a ha
      refine (List.mem_append.mp ha).elim isDigit_of_mem_zeros fun ha => hdigits a ?_
      rw [hkept]
      exact List.mem_append_left _ ha
    · intro negative
      rw [List.take_append_drop, hfraction, hnumber, Double.ofDecimal_mul_tenTo]
      congr 1
      omega

end Decimal

namespace Double

/-- Digits around a point are read as the decimal they stand for. -/
theorem ofPlain?_pointed {whole fraction : List Char} (hne : whole ≠ [])
    (hdigits : ∀ a ∈ whole ++ fraction, a.isDigit = true) (negative : Bool) :
    ofPlain? negative (whole ++ '.' :: fraction) =
      some (ofDecimal negative (numberOf (whole ++ fraction)) (-fraction.length)) := by
  have hwhole : ∀ a ∈ whole, a.isDigit = true := fun a ha => hdigits a (List.mem_append_left _ ha)
  have hfraction : ∀ a ∈ fraction, a.isDigit = true :=
    fun a ha => hdigits a (List.mem_append_right _ ha)
  have htake : (whole ++ '.' :: fraction).takeWhile Char.isDigit = whole := by
    rw [List.takeWhile_append_of_pos hwhole]
    simp
  have hdrop : (whole ++ '.' :: fraction).dropWhile Char.isDigit = '.' :: fraction := by
    rw [List.dropWhile_append_of_pos hwhole]
    simp
  have htake' : fraction.takeWhile Char.isDigit = fraction :=
    List.takeWhile_eq_self_iff.mpr hfraction
  have hdrop' : fraction.dropWhile Char.isDigit = [] := List.dropWhile_eq_nil_iff.mpr hfraction
  rw [ofPlain?]
  simp only [htake, hdrop, htake', hdrop', hne, false_and, if_false, exponentOf?]
  simp

/-- A finite double is written as digits around a point that stand for it, behind its sign. -/
theorem exists_finite_toText (negative : Bool) (m : Magnitude) :
    ∃ whole fraction, (finite negative m).toText =
        (if negative then ['-'] else []) ++ (whole ++ '.' :: fraction) ∧ whole ≠ [] ∧
      (∀ a ∈ whole ++ fraction, a.isDigit = true) ∧
      ofDecimal negative (numberOf (whole ++ fraction)) (-fraction.length) = finite negative m := by
  rw [toText]
  by_cases hzero : m.units = 0
  · refine ⟨['0'], [], by rw [if_pos hzero]; rfl, nofun, by simp, ?_⟩
    rw [Magnitude.eq_zero_of_units_eq_zero hzero]
    exact ofDecimal_zero negative _
  · obtain ⟨whole, fraction, htext, hne, hdigits, hdecimal⟩ :=
      m.shortestDecimal.exists_positional_eq
    refine ⟨whole, fraction, by rw [if_neg hzero, htext], hne, hdigits, ?_⟩
    rw [hdecimal, ofDecimal_sign (m.ofDecimal_shortestDecimal hzero)]

theorem toLower_of_isDigit {a : Char} (h : a.isDigit = true) : a.toLower = a := by
  refine dif_neg fun hupper => ?_
  simp only [Char.isDigit, ge_iff_le, Bool.and_eq_true, decide_eq_true_eq] at h
  exact absurd (UInt32.le_trans hupper.1 h.2) (by decide)

/-- What is none of the names in small letters is read as digits. -/
theorem ofText?_eq_ofPlain? {text body : List Char} {negative : Bool}
    (hsign : splitSign text = (negative, body))
    (hname : ∀ name ∈ ["inf", "infinity", "nan"], body.map Char.toLower ≠ name.toList) :
    ofText? text = ofPlain? negative body := by
  have hlower : ∀ name ∈ ["inf", "infinity", "nan"],
      String.ofList (body.map Char.toLower) ≠ name := by
    rintro name hmem rfl
    exact hname _ hmem String.toList_ofList.symm
  rw [ofText?, hsign]
  simp only
  split
  · next heq => exact absurd heq (hlower "inf" (by simp))
  · next heq => exact absurd heq (hlower "infinity" (by simp))
  · next heq => exact absurd heq (hlower "nan" (by simp))
  · rfl

/-- A text that starts with a digit is none of the names. -/
theorem ofText?_digits {a : Char} (ha : a.isDigit = true) (rest : List Char) (negative : Bool) :
    ofText? ((if negative then ['-'] else []) ++ a :: rest) = ofPlain? negative (a :: rest) := by
  have hsign : splitSign ((if negative then ['-'] else []) ++ a :: rest) =
      (negative, a :: rest) := by
    cases negative
    · refine splitSign_unsigned ?_ ?_ <;> rintro ⟨⟩ <;> cases ha
    · rfl
  refine ofText?_eq_ofPlain? hsign fun name hmem heq => ?_
  have hletter : ∀ name ∈ ["inf", "infinity", "nan"],
      name.toList.head?.any Char.isDigit = false := by decide
  have hhead := hletter name hmem
  rw [← heq, List.map_cons, toLower_of_isDigit ha, List.head?_cons, Option.any_some, ha] at hhead
  cases hhead

/-- Every double is read from its own text. -/
theorem ofText?_toText (x : Double) : ofText? x.toText = some x := by
  cases x with
  | nan => rfl
  | infinity negative => cases negative <;> rfl
  | finite negative m =>
    obtain ⟨whole, fraction, htext, hne, hdigits, hdecimal⟩ := exists_finite_toText negative m
    obtain ⟨a, more, rfl⟩ := List.exists_cons_of_ne_nil hne
    rw [htext, List.cons_append, ofText?_digits (hdigits a List.mem_cons_self), ← List.cons_append,
      ofPlain?_pointed hne hdigits, hdecimal]

theorem mem_splitSign {a : Char} {text : List Char} (h : a ∈ text) (hminus : a ≠ '-')
    (hplus : a ≠ '+') : a ∈ (splitSign text).2 := by
  unfold splitSign
  split
  · exact List.mem_of_ne_of_mem hminus h
  · exact List.mem_of_ne_of_mem hplus h
  · exact h

theorem mem_dropWhile_isDigit {a : Char} {text : List Char} (h : a ∈ text)
    (ha : a.isDigit = false) : a ∈ text.dropWhile Char.isDigit := by
  rw [← List.takeWhile_append_dropWhile (p := Char.isDigit) (l := text)] at h
  refine (List.mem_append.mp h).resolve_left fun htake => ?_
  rw [List.mem_takeWhile_imp htake] at ha
  cases ha

theorem exponentOf?_colon {text : List Char} (h : ':' ∈ text) : exponentOf? text = none := by
  cases text with
  | nil => cases h
  | cons mark more =>
    rw [exponentOf?]
    refine if_neg ?_
    rintro ⟨hmark, -, hall⟩
    have hmore : ':' ∈ more := by
      refine List.mem_of_ne_of_mem ?_ h
      rcases hmark with rfl | rfl <;> decide
    have hdigit := List.all_eq_true.mp hall ':' (mem_splitSign hmore (by decide) (by decide))
    cases hdigit

theorem ofPlain?_colon {text : List Char} (h : ':' ∈ text) (negative : Bool) :
    ofPlain? negative text = none := by
  have hafter := mem_dropWhile_isDigit h rfl
  simp only [ofPlain?]
  split
  · next more hmore =>
    rw [hmore] at hafter
    have hin := List.mem_of_ne_of_mem (by decide) hafter
    rw [exponentOf?_colon (mem_dropWhile_isDigit hin rfl)]
    split <;> rfl
  · rw [exponentOf?_colon hafter]
    split <;> rfl

/-- No double has a colon in its text. -/
theorem ofText?_colon {text : List Char} (h : ':' ∈ text) : ofText? text = none := by
  have hbody : ':' ∈ (splitSign text).2 := mem_splitSign h (by decide) (by decide)
  rcases hsign : splitSign text with ⟨negative, body⟩
  rw [hsign] at hbody
  rw [ofText?_eq_ofPlain? hsign, ofPlain?_colon hbody]
  intro name hmem heq
  have hletters : ∀ name ∈ ["inf", "infinity", "nan"], ':' ∉ name.toList := by decide
  apply hletters name hmem
  rw [← heq]
  exact List.mem_map.mpr ⟨':', hbody, rfl⟩

end Double

end Reckon
