import Mathlib.Algebra.Group.Nat.Defs
import Mathlib.Tactic.Ring
import Reckon.Double.Basic

/-!
Rounding to the nearest double. It depends on a quotient alone, not on how the
quotient is written, every finite double is its own nearest one, and no other
quotient is moved by more than half the step at its size.
-/

namespace Reckon

theorem roundHalfEven_mul (numerator denominator : Nat) {k : Nat} (hk : 0 < k) :
    roundHalfEven (numerator * k) (denominator * k) = roundHalfEven numerator denominator := by
  have hdoubled : 2 * (numerator % denominator * k) = 2 * (numerator % denominator) * k :=
    (Nat.mul_assoc _ _ _).symm
  simp only [roundHalfEven, Nat.mul_div_mul_right _ _ hk, Nat.mul_mod_mul_right, hdoubled,
    Nat.mul_lt_mul_right hk]

theorem roundHalfEven_mul_self (quotient : Nat) {denominator : Nat} (h : 0 < denominator) :
    roundHalfEven (quotient * denominator) denominator = quotient := by
  rw [roundHalfEven, Nat.mul_mod_left, Nat.mul_div_cancel _ h]
  exact if_pos h

/-- Rounding moves a quotient by at most one half. -/
theorem roundHalfEven_error (numerator : Nat) {denominator : Nat} (h : 0 < denominator) :
    2 * (roundHalfEven numerator denominator * denominator) ≤ 2 * numerator + denominator ∧
      2 * numerator ≤ 2 * (roundHalfEven numerator denominator * denominator) + denominator := by
  have hdivision := Nat.div_add_mod numerator denominator
  have hrest := Nat.mod_lt numerator h
  rw [Nat.mul_comm] at hdivision
  rw [roundHalfEven]
  generalize numerator / denominator = quotient at hdivision ⊢
  generalize numerator % denominator = rest at hdivision hrest ⊢
  have hsucc : (quotient + 1) * denominator = quotient * denominator + denominator :=
    Nat.succ_mul _ _
  split_ifs with hbelow habove
  · omega
  · omega
  · rcases Nat.mod_two_eq_zero_or_one quotient with heven | hodd
    · rw [heven, Nat.add_zero]
      omega
    · rw [hodd]
      omega

theorem roundHalfEven_bounds (numerator denominator : Nat) :
    numerator / denominator ≤ roundHalfEven numerator denominator ∧
      roundHalfEven numerator denominator ≤ numerator / denominator + 1 := by
  rw [roundHalfEven]
  split_ifs <;> omega

theorem nearestOrdinal_mul (numerator denominator : Nat) {k : Nat} (hk : 0 < k) :
    nearestOrdinal (numerator * k) (denominator * k) = nearestOrdinal numerator denominator := by
  have hshift : ∀ s, (denominator * k) <<< s = denominator <<< s * k := by
    intro s
    rw [Nat.shiftLeft_eq, Nat.shiftLeft_eq, Nat.mul_right_comm]
  simp only [nearestOrdinal, Nat.mul_div_mul_right _ _ hk, hshift, roundHalfEven_mul _ _ hk]

/-- Equal quotients have the same nearest double. -/
theorem Double.ofUnits_congr (negative : Bool) {a b c d : Nat} (h : a * d = c * b) (hb : 0 < b)
    (hd : 0 < d) : ofUnits negative a b = ofUnits negative c d := by
  have hordinal : nearestOrdinal a b = nearestOrdinal c d := by
    rw [← nearestOrdinal_mul a b hd, ← nearestOrdinal_mul c d hb, h, Nat.mul_comm b d]
  simp only [ofUnits, hordinal]

namespace Magnitude

theorem block_eq : block = 2 ^ 52 := Nat.one_shiftLeft 52

/-- A magnitude in units: 53 bits that are shifted, or fewer that are not. -/
theorem exists_unitsOf_eq (ordinal : Nat) :
    ∃ bits shift, unitsOf ordinal = bits * 2 ^ shift ∧ ordinal = shift * block + bits ∧
      bits < 2 ^ 53 ∧ (shift = 0 ∨ 2 ^ 52 ≤ bits) := by
  have hblock := block_eq
  have hle : ordinal / block * block ≤ ordinal := Nat.div_mul_le_self ordinal block
  have hlt : ordinal < ordinal / block * block + block :=
    Nat.lt_div_mul_add (by rw [block_eq]; decide)
  have hunits : ∀ shift, shift = ordinal / block - 1 →
      unitsOf ordinal = (ordinal - shift * block) * 2 ^ shift := by
    rintro shift rfl
    exact Nat.shiftLeft_eq _ _
  cases hquotient : ordinal / block with
  | zero =>
    rw [hquotient] at hlt
    refine ⟨ordinal, 0, ?_, ?_, ?_, .inl rfl⟩
    · rw [hunits 0 (by rw [hquotient]), Nat.zero_mul, Nat.sub_zero]
    · rw [Nat.zero_mul, Nat.zero_add]
    · omega
  | succ shift =>
    rw [hquotient, Nat.succ_mul] at hle hlt
    refine ⟨ordinal - shift * block, shift, hunits shift (by rw [hquotient]; rfl), ?_, ?_, .inr ?_⟩
    all_goals omega

/-- The shift of a magnitude is read off the number of its bits. -/
theorem log2_units {bits shift : Nat} (hlt : bits < 2 ^ 53) (h : shift = 0 ∨ 2 ^ 52 ≤ bits) :
    (bits * 2 ^ shift).log2 - 52 = shift := by
  rcases h with rfl | hfull
  · rw [Nat.pow_zero, Nat.mul_one]
    rcases Nat.eq_zero_or_pos bits with rfl | hpos
    · rfl
    · have hlog := (Nat.log2_lt (Nat.pos_iff_ne_zero.mp hpos)).mpr hlt
      omega
  · have hne : bits * 2 ^ shift ≠ 0 := by
      have hpos := Nat.mul_pos (Nat.lt_of_lt_of_le (by decide) hfull) (Nat.two_pow_pos shift)
      omega
    have hlow := Nat.mul_le_mul_right (2 ^ shift) hfull
    have hhigh := Nat.mul_lt_mul_of_pos_right hlt (Nat.two_pow_pos shift)
    rw [← Nat.pow_add] at hlow hhigh
    have hsucc : 53 + shift = 52 + shift + 1 := by omega
    rw [(Nat.log2_eq_iff hne).mpr ⟨hlow, hsucc ▸ hhigh⟩]
    omega

/-- Every magnitude is the nearest one to itself. -/
theorem nearestOrdinal_units (m : Magnitude) : nearestOrdinal m.units 1 = m.ordinal := by
  obtain ⟨bits, shift, hunits, hordinal, hlt, hshift⟩ := exists_unitsOf_eq m.ordinal
  rw [units, hunits, nearestOrdinal, Nat.div_one, log2_units hlt hshift, Nat.shiftLeft_eq,
    Nat.one_mul, roundHalfEven_mul_self _ (Nat.two_pow_pos shift), ← hordinal]

/-- The ordinal of 53 bits that are shifted, or of fewer that are not, is worth them; so is that of
one more, which is the first of the next block. -/
theorem unitsOf_eq {bits shift : Nat} (hle : bits ≤ 2 ^ 53) (h : shift = 0 ∨ 2 ^ 52 ≤ bits) :
    unitsOf (shift * block + bits) = bits * 2 ^ shift := by
  have hblock := block_eq
  have hunits : ∀ blocks, blocks * block ≤ shift * block + bits →
      shift * block + bits < (blocks + 1) * block →
      unitsOf (shift * block + bits) =
        (shift * block + bits - (blocks - 1) * block) * 2 ^ (blocks - 1) := by
    intro blocks hlow hhigh
    obtain rfl := Nat.div_eq_of_lt_le hlow hhigh
    exact Nat.shiftLeft_eq _ _
  have hsucc : ∀ blocks, (blocks + 1) * block = blocks * block + block :=
    fun _ => Nat.succ_mul _ _
  have hfirst := hsucc shift
  have hsecond := hsucc (shift + 1)
  have hthird := hsucc (shift + 1 + 1)
  rcases Nat.lt_or_ge bits (2 ^ 52) with hfew | hfull
  · obtain rfl : shift = 0 := h.resolve_right (Nat.not_le.mpr hfew)
    rw [hunits 0 (by omega) (by omega)]
    simp
  rcases Nat.lt_or_eq_of_le hle with hlt | rfl
  · rw [hunits (shift + 1) (by omega) (by omega), Nat.add_sub_cancel, Nat.add_sub_cancel_left]
  · rw [hunits (shift + 1 + 1) (by omega) (by omega), Nat.add_sub_cancel, hfirst, hblock,
      Nat.pow_succ 2 shift]
    have hbits : shift * 2 ^ 52 + 2 ^ 53 - (shift * 2 ^ 52 + 2 ^ 52) = 2 ^ 52 := by omega
    rw [hbits]
    ring

/-- A quotient that is shifted keeps 53 bits. -/
theorem two_pow_mul_le_of_shift {quotient shift : Nat} (h : shift = quotient.log2 - 52)
    (hpos : 0 < shift) : 2 ^ 52 * 2 ^ shift ≤ quotient := by
  have hne : quotient ≠ 0 := by
    rintro rfl
    rw [Nat.log2_zero] at h
    omega
  have hlog : 52 + shift = quotient.log2 := by omega
  rw [← Nat.pow_add, hlog]
  exact Nat.log2_self_le hne

theorem lt_two_pow_mul_of_shift {quotient shift : Nat} (h : shift = quotient.log2 - 52) :
    quotient < 2 ^ 53 * 2 ^ shift := by
  have hlog : quotient.log2 + 1 ≤ 53 + shift := by omega
  rw [← Nat.pow_add]
  exact Nat.lt_log2_self.trans_le (Nat.pow_le_pow_right (by decide) hlog)

/-- The nearest magnitude is within half of the last of its 53 bits. -/
theorem unitsOf_nearestOrdinal (numerator : Nat) {denominator : Nat} (h : 0 < denominator) :
    ∃ shift, shift = (numerator / denominator).log2 - 52 ∧
      2 * (unitsOf (nearestOrdinal numerator denominator) * denominator) ≤
        2 * numerator + denominator * 2 ^ shift ∧
      2 * numerator ≤
        2 * (unitsOf (nearestOrdinal numerator denominator) * denominator) +
          denominator * 2 ^ shift := by
  obtain ⟨shift, hshift⟩ : ∃ shift, shift = (numerator / denominator).log2 - 52 := ⟨_, rfl⟩
  refine ⟨shift, hshift, ?_⟩
  have hstep := Nat.two_pow_pos shift
  have hordinal : nearestOrdinal numerator denominator =
      shift * block + roundHalfEven numerator (denominator * 2 ^ shift) := by
    rw [nearestOrdinal, ← hshift, Nat.shiftLeft_eq]
  obtain ⟨hlow, hhigh⟩ := roundHalfEven_bounds numerator (denominator * 2 ^ shift)
  rw [← Nat.div_div_eq_div_mul] at hlow hhigh
  have hbits : roundHalfEven numerator (denominator * 2 ^ shift) ≤ 2 ^ 53 :=
    hhigh.trans ((Nat.div_lt_iff_lt_mul hstep).mpr (lt_two_pow_mul_of_shift hshift))
  have hfull : shift = 0 ∨ 2 ^ 52 ≤ roundHalfEven numerator (denominator * 2 ^ shift) := by
    refine (Nat.eq_zero_or_pos shift).imp_right fun hpos => ?_
    exact ((Nat.le_div_iff_mul_le hstep).mpr (two_pow_mul_le_of_shift hshift hpos)).trans hlow
  have hproduct : roundHalfEven numerator (denominator * 2 ^ shift) * 2 ^ shift * denominator =
      roundHalfEven numerator (denominator * 2 ^ shift) * (denominator * 2 ^ shift) := by
    ring
  rw [hordinal, unitsOf_eq hbits hfull, hproduct]
  exact roundHalfEven_error numerator (Nat.mul_pos h hstep)

/-- Every magnitude is below the place where infinity stands. -/
theorem units_lt (m : Magnitude) : m.units < unitsOf count := by
  obtain ⟨bits, shift, hunits, hordinal, hlt, hshift⟩ := exists_unitsOf_eq m.ordinal
  have hcount : m.ordinal < 2047 * block := m.ordinal_lt
  have hblock := block_eq
  have hle : shift ≤ 2045 := by
    refine Nat.le_of_not_lt fun habove => ?_
    have hblocks : 2046 * block ≤ shift * block := Nat.mul_le_mul_right _ habove
    omega
  calc m.units = bits * 2 ^ shift := hunits
    _ < 2 ^ 53 * 2 ^ shift := Nat.mul_lt_mul_of_pos_right hlt (Nat.two_pow_pos shift)
    _ ≤ 2 ^ 53 * 2 ^ 2045 := Nat.mul_le_mul_left _ (Nat.pow_le_pow_right (by decide) hle)
    _ = unitsOf count := by decide +kernel

theorem eq_zero_of_units_eq_zero {m : Magnitude} (h : m.units = 0) : m = zero := by
  have hordinal := m.nearestOrdinal_units
  have hzero : nearestOrdinal 0 1 = 0 := by decide +kernel
  rw [h, hzero] at hordinal
  obtain ⟨ordinal, hlt⟩ := m
  subst hordinal
  rfl

theorem ofUnits_units (m : Magnitude) (negative : Bool) {k : Nat} (hk : 0 < k) :
    Double.ofUnits negative (m.units * k) k = .finite negative m := by
  have hordinal : nearestOrdinal (m.units * k) k = m.ordinal := by
    have hmul := nearestOrdinal_mul m.units 1 hk
    rwa [Nat.one_mul, nearestOrdinal_units] at hmul
  simp only [Double.ofUnits, hordinal]
  exact dif_pos m.ordinal_lt

end Magnitude

end Reckon
