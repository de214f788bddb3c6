import Mathlib.Data.List.TakeWhile
import Reckon.Text.Basic
import Reckon.Value.Basic

/-!
White space trimmed and decimal digits read back. Trimming leaves a text alone
that neither starts nor ends with white space, and takes nothing but white space
off any text. The digits of a number denote it, also with zeros in front or, for
a power of ten more, behind them. A written 64-bit integer is read as itself,
and no text with a foreign character is read as one. Behind written numbers the
first separator is found again.
-/

namespace Reckon.Text

variable {n k width : Nat} {a : Char} {digits text : List Char}

theorem trimStart_eq_self (h : ∀ a ∈ text.head?, isBlank a = false) : trimStart text = text := by
  cases text with
  | nil => rfl
  | cons a text => exact List.dropWhile_cons_of_neg (by simp [h a rfl])

theorem trimEnd_eq_self (h : ∀ a ∈ text.getLast?, isBlank a = false) : trimEnd text = text := by
  have hreverse : trimStart text.reverse = text.reverse :=
    trimStart_eq_self (by rwa [List.head?_reverse])
  change (trimStart text.reverse).reverse = text
  rw [hreverse, List.reverse_reverse]

theorem trim_eq_self_of_ends (hhead : ∀ a ∈ text.head?, isBlank a = false)
    (hlast : ∀ a ∈ text.getLast?, isBlank a = false) : trim text = text := by
  rw [trim, trimStart_eq_self hhead, trimEnd_eq_self hlast]

theorem trim_eq_self (h : ∀ a ∈ text, isBlank a = false) : trim text = text :=
  trim_eq_self_of_ends (fun a ha => h a (List.mem_of_mem_head? ha))
    fun a ha => h a (List.mem_of_mem_getLast? ha)

theorem mem_trimStart (h : a ∈ text) (ha : isBlank a = false) : a ∈ trimStart text := by
  rw [← List.takeWhile_append_dropWhile (p := isBlank) (l := text)] at h
  refine (List.mem_append.mp h).resolve_left fun htake => ?_
  rw [List.mem_takeWhile_imp htake] at ha
  cases ha

theorem mem_trim (h : a ∈ text) (ha : isBlank a = false) : a ∈ trim text := by
  have hreversed : a ∈ (trimStart text).reverse := List.mem_reverse.mpr (mem_trimStart h ha)
  change a ∈ (trimStart (trimStart text).reverse).reverse
  exact List.mem_reverse.mpr (mem_trimStart hreversed ha)

theorem tenTo_zero : tenTo 0 = 1 := rfl

theorem tenTo_succ (exponent : Nat) : tenTo (exponent + 1) = tenTo exponent * 10 :=
  Nat.pow_succ 10 exponent

theorem tenTo_pos (exponent : Nat) : 0 < tenTo exponent := Nat.pow_pos (by decide)

theorem tenTo_add (a b : Nat) : tenTo (a + b) = tenTo a * tenTo b := Nat.pow_add 10 a b

theorem isDigit_of_mem_decimalDigits (h : a ∈ decimalDigits n) : a.isDigit = true :=
  Nat.isDigit_of_mem_toDigits (by decide) (by decide) h

theorem decimalDigits_ne_nil (n : Nat) : decimalDigits n ≠ [] := Nat.toDigits_ne_nil

theorem length_decimalDigits_le_iff (hk : 0 < k) : (decimalDigits n).length ≤ k ↔ n < tenTo k :=
  Nat.length_toDigits_le_iff (by decide) hk

/-- A power of ten puts zeros behind the digits. -/
theorem decimalDigits_mul_tenTo (hn : n ≠ 0) (k : Nat) :
    decimalDigits (n * tenTo k) = decimalDigits n ++ List.replicate k '0' := by
  induction k with
  | zero => rw [tenTo_zero, Nat.mul_one, List.replicate_zero, List.append_nil]
  | succ k ih =>
    have hpos : 0 < n * tenTo k := Nat.mul_pos (Nat.pos_of_ne_zero hn) (tenTo_pos k)
    have hlast := Nat.toDigits_append_toDigits (by decide) hpos (show 0 < 10 by decide)
    have hnext : n * tenTo (k + 1) = 10 * (n * tenTo k) + 0 := by
      rw [tenTo_succ, ← Nat.mul_assoc, Nat.mul_comm, Nat.add_zero]
    rw [decimalDigits, hnext, ← hlast, ← decimalDigits, ih, List.append_assoc,
      List.replicate_succ']
    rfl

theorem length_decimalDigits_mul_tenTo (hn : n ≠ 0) (k : Nat) :
    (decimalDigits (n * tenTo k)).length = (decimalDigits n).length + k := by
  rw [decimalDigits_mul_tenTo hn, List.length_append, List.length_replicate]

theorem numberOf_append_zeros (digits : List Char) (k : Nat) :
    numberOf (digits ++ List.replicate k '0') = numberOf digits * tenTo k := by
  rw [numberOf, Nat.ofDigitChars_append, Nat.ofDigitChars_replicate_zero, Nat.mul_comm]
  rfl

theorem numberOf_zeros_append (k : Nat) (digits : List Char) :
    numberOf (List.replicate k '0' ++ digits) = numberOf digits := by
  rw [numberOf, Nat.ofDigitChars_append, Nat.ofDigitChars_replicate_zero, Nat.mul_zero, numberOf]

theorem isDigit_of_mem_zeros (h : a ∈ List.replicate k '0') : a.isDigit = true := by
  obtain ⟨-, rfl⟩ := List.mem_replicate.mp h
  rfl

theorem isDigit_of_mem_padded (h : a ∈ padded width n) : a.isDigit = true :=
  (List.mem_append.mp h).elim isDigit_of_mem_zeros isDigit_of_mem_decimalDigits

theorem numberOf_padded (width n : Nat) : numberOf (padded width n) = n :=
  (numberOf_zeros_append _ _).trans (numberOf_decimalDigits n)

theorem padded_ne_nil (width n : Nat) : padded width n ≠ [] :=
  List.append_ne_nil_of_right_ne_nil _ (decimalDigits_ne_nil n)

/-- A number that fits fills the width exactly. -/
theorem length_padded (hwidth : 0 < width) (h : n < tenTo width) :
    (padded width n).length = width := by
  have hle := (length_decimalDigits_le_iff hwidth).mpr h
  rw [padded, List.length_append, List.length_replicate]
  omega

/-- An integer is read off digits that stand for it. -/
theorem int64?.read_eq_some_iff {sign : Nat → Int} {n : Int64} :
    int64?.read digits sign = some n ↔
      digits ≠ [] ∧ (∀ a ∈ digits, a.isDigit = true) ∧ sign (numberOf digits) = n.toInt := by
  rw [int64?.read, ← List.all_eq_true, ← and_assoc]
  by_cases hdigits : digits ≠ [] ∧ digits.all Char.isDigit = true
  · rw [if_pos hdigits, and_iff_right hdigits]
    constructor
    · intro h
      simp only at h
      split at h
      · next hrange =>
        obtain rfl := Option.some.inj h
        exact (Int64.toInt_ofInt_of_le hrange.1 (Int.lt_add_one_of_le hrange.2)).symm
      · cases h
    · intro hn
      simp only [hn]
      rw [if_pos ⟨n.minValue_le_toInt, n.toInt_le⟩, Int64.ofInt_toInt]
  · rw [if_neg hdigits]
    exact ⟨nofun, fun h => absurd h.1 hdigits⟩

theorem int64?.read_digits (hne : digits ≠ []) (hdigits : ∀ a ∈ digits, a.isDigit = true)
    {sign : Nat → Int} {n : Int64} (hn : sign (numberOf digits) = n.toInt) :
    int64?.read digits sign = some n :=
  int64?.read_eq_some_iff.mpr ⟨hne, hdigits, hn⟩

theorem int64?_unsigned (h : ∀ a ∈ text.head?, a.isDigit = true) :
    int64? text = int64?.read text fun n => (n : Int) := by
  unfold int64?
  split
  · cases h '-' rfl
  · cases h '+' rfl
  · rfl

/-- A written integer is read as itself. -/
theorem int64?_signedDecimal (n : Int64) : int64? (signedDecimal n.toInt) = some n := by
  have hdigits : ∀ a ∈ decimalDigits n.toInt.natAbs, a.isDigit = true :=
    fun _ => isDigit_of_mem_decimalDigits
  have hne := decimalDigits_ne_nil n.toInt.natAbs
  rw [signedDecimal]
  split
  · change int64?.read (decimalDigits n.toInt.natAbs) (fun n => -(n : Int)) = some n
    refine int64?.read_digits hne hdigits ?_
    rw [numberOf_decimalDigits]
    omega
  · rw [List.nil_append, int64?_unsigned fun a ha => hdigits a (List.mem_of_mem_head? ha)]
    refine int64?.read_digits hne hdigits ?_
    rw [numberOf_decimalDigits]
    omega

/-- Numbers with the same digits are the same. -/
theorem decimalDigits_injective : Function.Injective decimalDigits := by
  intro m n h
  rw [← numberOf_decimalDigits m, h, numberOf_decimalDigits]

/-- A sign is no digit, so that written integers are told apart. -/
theorem signedDecimal_injective : Function.Injective signedDecimal := by
  have hsign : ∀ {m n : Int}, m < 0 → ¬n < 0 → signedDecimal m ≠ signedDecimal n := by
    intro m n hm hn h
    rw [signedDecimal, signedDecimal, if_pos hm, if_neg hn] at h
    have hmem : '-' ∈ decimalDigits n.natAbs := by
      rw [← List.nil_append (decimalDigits n.natAbs), ← h]
      exact List.mem_cons_self
    exact absurd (isDigit_of_mem_decimalDigits hmem) (by decide)
  intro m n h
  by_cases hm : m < 0
  · by_cases hn : n < 0
    · rw [signedDecimal, signedDecimal, if_pos hm, if_pos hn] at h
      have habs := decimalDigits_injective (List.append_cancel_left h)
      omega
    · exact absurd h (hsign hm hn)
  · by_cases hn : n < 0
    · exact absurd h.symm (hsign hn hm)
    · rw [signedDecimal, signedDecimal, if_neg hm, if_neg hn] at h
      have habs := decimalDigits_injective h
      omega

theorem int64?.read_eq_none (ha : a ∈ digits) (hdigit : a.isDigit = false) (sign : Nat → Int) :
    int64?.read digits sign = none := by
  rw [int64?.read, if_neg]
  rintro ⟨-, hall⟩
  rw [List.all_eq_true.mp hall a ha] at hdigit
  cases hdigit

/-- An integer has no other characters than its digits and a sign. -/
theorem int64?_eq_none (ha : a ∈ text) (hdigit : a.isDigit = false) (hminus : a ≠ '-')
    (hplus : a ≠ '+') : int64? text = none := by
  unfold int64?
  split
  · exact int64?.read_eq_none (List.mem_of_ne_of_mem hminus ha) hdigit _
  · exact int64?.read_eq_none (List.mem_of_ne_of_mem hplus ha) hdigit _
  · exact int64?.read_eq_none ha hdigit _

/-- The first separator of a text splits it. -/
theorem split_iff {before rest : List Char} :
    text.takeWhile (· ≠ a) = before ∧ text.dropWhile (· ≠ a) = a :: rest ↔
      text = before ++ a :: rest ∧ a ∉ before := by
  constructor
  · rintro ⟨rfl, hrest⟩
    have htext := List.takeWhile_append_dropWhile (p := fun b => decide (b ≠ a)) (l := text)
    rw [hrest] at htext
    refine ⟨htext.symm, fun hmem => ?_⟩
    have hne := List.mem_takeWhile_imp hmem
    exact of_decide_eq_true hne rfl
  · rintro ⟨rfl, hmem⟩
    have hne : ∀ b ∈ before, decide (b ≠ a) = true := fun b hb =>
      decide_eq_true fun heq => hmem (heq ▸ hb)
    constructor
    · rw [List.takeWhile_append_of_pos hne, List.takeWhile_cons_of_neg (by simp), List.append_nil]
    · rw [List.dropWhile_append_of_pos hne, List.dropWhile_cons_of_neg (by simp)]

/-- Texts that are the same up to a separator and behind it. -/
theorem append_cons_inj {before before' rest rest' : List Char} (h : a ∉ before)
    (h' : a ∉ before') (heq : before ++ a :: rest = before' ++ a :: rest') :
    before = before' ∧ rest = rest' := by
  obtain ⟨hbefore, hrest⟩ := split_iff.mpr ⟨rfl, h⟩
  obtain ⟨hbefore', hrest'⟩ := split_iff.mpr ⟨heq, h'⟩
  exact ⟨hbefore.symm.trans hbefore', (List.cons.inj (hrest.symm.trans hrest')).2⟩

end Reckon.Text
