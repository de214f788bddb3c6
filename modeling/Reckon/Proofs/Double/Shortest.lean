import Mathlib.Tactic.Ring
import Reckon.Double.Decimal
import Reckon.Proofs.Double.Rounding
import Reckon.Proofs.Text.Basic

/-!
Doubles read back from their own text. Zeros may be moved between a coefficient
and its power of ten, so the text without exponent stands for the decimal that
it was made of; and that decimal rounds to the double, since it was tried, or
else is its exact value.
-/

namespace Reckon

open Text

namespace Double

private theorem cross_mul {a u p q r s t : Nat} (h : p * q * r = s * t) :
    a * p * q * u * r = a * s * u * t := by
  calc a * p * q * u * r = a * u * (p * q * r) := by ring
    _ = a * s * u * t := by rw [h]; ring

theorem ofDecimal_zero (negative : Bool) (exponent : Int) :
    ofDecimal negative 0 exponent = zero negative := by
  simp only [ofDecimal, if_true]

/-- Zeros may be moved from a coefficient into its exponent. -/
theorem ofDecimal_mul_tenTo (negative : Bool) (coefficient k : Nat) (exponent : Int) :
    ofDecimal negative (coefficient * tenTo k) exponent =
      ofDecimal negative coefficient (exponent + k) := by
  by_cases hzero : coefficient = 0
  · rw [hzero, Nat.zero_mul, ofDecimal_zero, ofDecimal_zero]
  have hproduct : coefficient * tenTo k ≠ 0 :=
    Nat.mul_ne_zero hzero (Nat.pos_iff_ne_zero.mp (tenTo_pos k))
  have htop : ((decimalDigits (coefficient * tenTo k)).length : Int) + exponent =
      (decimalDigits coefficient).length + (exponent + k) := by
    rw [length_decimalDigits_mul_tenTo hzero]
    omega
  have hunits : ofUnits negative
      (coefficient * tenTo k * tenTo exponent.toNat * unitsPerOne) (tenTo (-exponent).toNat) =
      ofUnits negative (coefficient * tenTo (exponent + k).toNat * unitsPerOne)
        (tenTo (-(exponent + k)).toNat) := by
    refine ofUnits_congr negative ?_ (tenTo_pos _) (tenTo_pos _)
    have hpow : tenTo k * tenTo exponent.toNat * tenTo (-(exponent + k)).toNat =
        tenTo (exponent + k).toNat * tenTo (-exponent).toNat := by
      rw [← tenTo_add, ← tenTo_add, ← tenTo_add]
      congr 1
      omega
    exact cross_mul hpow
  simp only [ofDecimal, if_neg hproduct, if_neg hzero, htop, hunits]

/-- The sign of a decimal is that of its double. -/
theorem ofDecimal_sign {coefficient : Nat} {exponent : Int} {m : Magnitude}
    (h : ofDecimal false coefficient exponent = .finite false m) (negative : Bool) :
    ofDecimal negative coefficient exponent = .finite negative m := by
  rw [ofDecimal] at h ⊢
  split_ifs at h ⊢ with hzero hlarge hsmall
  · cases h
    rfl
  · cases h
    rfl
  · rw [ofUnits] at h ⊢
    split at h
    · next hfinite =>
      cases h
      exact dif_pos hfinite
    · cases h

end Double

namespace Magnitude

theorem coefficient_exactDecimal (m : Magnitude) :
    m.exactDecimal.coefficient = m.units * Nat.pow 5 1074 := rfl

/-- The exact value of a magnitude lies within the bounds that need no rounding. -/
theorem length_exactDecimal (m : Magnitude) (hm : m.units ≠ 0) :
    750 < (decimalDigits m.exactDecimal.coefficient).length ∧
      (decimalDigits m.exactDecimal.coefficient).length ≤ 1383 := by
  have hlow : tenTo 750 ≤ Nat.pow 5 1074 := by decide +kernel
  have hhigh : unitsOf count * Nat.pow 5 1074 ≤ tenTo 1383 := by decide +kernel
  have hlt := m.units_lt
  rw [coefficient_exactDecimal]
  generalize Nat.pow 5 1074 = five at hlow hhigh ⊢
  constructor
  · refine Nat.lt_of_not_le fun hle => ?_
    have hbelow := (length_decimalDigits_le_iff (by decide)).mp hle
    have habove := Nat.le_mul_of_pos_left five (Nat.pos_of_ne_zero hm)
    omega
  · have hfive : 0 < five := (tenTo_pos 750).trans_le hlow
    have hproduct := Nat.mul_lt_mul_of_pos_right hlt hfive
    exact (length_decimalDigits_le_iff (by decide)).mpr (hproduct.trans_le hhigh)

/-- A decimal within the bounds that is worth just a magnitude rounds to it. -/
theorem ofDecimal_of_mul_eq {m : Magnitude} {coefficient : Nat} {exponent : Int}
    (hne : coefficient ≠ 0) (hlow : -324 < (decimalDigits coefficient).length + exponent)
    (hhigh : (decimalDigits coefficient).length + exponent ≤ 309)
    (h : coefficient * tenTo exponent.toNat * Double.unitsPerOne =
      m.units * tenTo (-exponent).toNat) :
    Double.ofDecimal false coefficient exponent = .finite false m := by
  rw [Double.ofDecimal, if_neg hne, if_neg (Int.not_lt.mpr hhigh), if_neg (Int.not_le.mpr hlow), h]
  exact m.ofUnits_units false (tenTo_pos _)

theorem ofDecimal_exactDecimal (m : Magnitude) (hm : m.units ≠ 0) :
    Double.ofDecimal false m.exactDecimal.coefficient m.exactDecimal.exponent =
      .finite false m := by
  obtain ⟨hlow, hhigh⟩ := m.length_exactDecimal hm
  have hexponent : m.exactDecimal.exponent = -1074 := rfl
  have hne : m.exactDecimal.coefficient ≠ 0 := by
    intro hzero
    rw [hzero] at hlow
    exact absurd hlow (by decide)
  refine ofDecimal_of_mul_eq hne ?_ ?_ ?_
  · omega
  · omega
  · -- the powers of five and of two make up the power of ten
    have hten : Nat.pow 5 1074 * Double.unitsPerOne = tenTo 1074 := by decide +kernel
    have hup : (-1074 : Int).toNat = 0 := rfl
    have hdown : (-(-1074) : Int).toNat = 1074 := rfl
    rw [hexponent, hup, hdown, tenTo_zero, Nat.mul_one, coefficient_exactDecimal, ← hten,
      Nat.mul_assoc]

/-- A neighbour is taken when it reads back. -/
theorem readsBack_neighbour? {m : Magnitude} {exponent : Int} {d : Decimal}
    (h : m.neighbour? exponent = some d) : m.readsBack d = true := by
  rw [neighbour?] at h
  exact List.find?_some h

/-- The shortest decimal of a magnitude rounds to it. -/
theorem ofDecimal_shortestDecimal (m : Magnitude) (hm : m.units ≠ 0) :
    Double.ofDecimal false m.shortestDecimal.coefficient m.shortestDecimal.exponent =
      .finite false m := by
  rw [shortestDecimal]
  cases hfound : (List.range' 1 17).findSome? fun (length : Nat) =>
      m.neighbour? (m.leadingPlace - length) with
  | none => exact m.ofDecimal_exactDecimal hm
  | some d =>
    obtain ⟨length, -, hneighbour⟩ := List.exists_of_findSome?_eq_some hfound
    exact of_decide_eq_true (readsBack_neighbour? hneighbour)

end Magnitude

end Reckon
