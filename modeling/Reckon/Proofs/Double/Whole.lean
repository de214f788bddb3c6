import Mathlib.Algebra.Order.Ring.Int
import Mathlib.Data.Nat.Prime.Basic
import Mathlib.Tactic.Ring
import Reckon.Proofs.Double.Rounding
import Reckon.Double.Basic

/-!
Whole numbers as doubles. Those of at most 53 bits, and `2 ^ 53`, are doubles, so
that operations on them whose result is such a number again find just this
number. A quotient of two of them that is not whole is not rounded to a whole
number either: rounding moves it by less than its distance from one.
-/

namespace Reckon.Double

/-- The units of one are a power of two; its exponent is kept apart, so that nothing computes the
power. -/
theorem exists_unitsPerOne_eq : ∃ exponent, exponent = 1074 ∧ unitsPerOne = 2 ^ exponent := by
  have hshift : ∀ exponent, exponent = 1074 → unitsPerOne = 2 ^ exponent := by
    rintro exponent heq
    rw [unitsPerOne, ← heq, Nat.one_shiftLeft]
  exact ⟨1074, rfl, hshift 1074 rfl⟩

theorem unitsPerOne_pos : 0 < unitsPerOne := by
  obtain ⟨exponent, -, hunits⟩ := exists_unitsPerOne_eq
  rw [hunits]
  exact Nat.two_pow_pos exponent

/-- Up to 53 bits that are shifted by no more than the units of one are a magnitude. -/
theorem exists_units_eq_shifted {bits shift : Nat} (hle : bits ≤ 2 ^ 53)
    (h : shift = 0 ∨ 2 ^ 52 ≤ bits) (hshift : shift ≤ 1074) :
    ∃ m : Magnitude, m.units = bits * 2 ^ shift := by
  have hordinal : shift * Magnitude.block + bits < Magnitude.count := by
    have hblocks := Nat.mul_le_mul_right Magnitude.block hshift
    rw [Magnitude.count]
    rw [Magnitude.block_eq] at hblocks ⊢
    omega
  exact ⟨⟨_, hordinal⟩, Magnitude.unitsOf_eq hle h⟩

/-- The whole numbers up to `2 ^ 53` are magnitudes. -/
theorem exists_units_eq {n : Nat} (h : n ≤ 2 ^ 53) :
    ∃ m : Magnitude, m.units = n * unitsPerOne := by
  obtain ⟨exponent, hexponent, hunits⟩ := exists_unitsPerOne_eq
  rw [hunits]
  rcases Nat.eq_zero_or_pos n with rfl | hpos
  · obtain ⟨m, hm⟩ := exists_units_eq_shifted (Nat.zero_le (2 ^ 53)) (.inl rfl) (Nat.zero_le 1074)
    refine ⟨m, ?_⟩
    rw [hm, Nat.zero_mul, Nat.zero_mul]
  rcases Nat.lt_or_eq_of_le h with hlt | rfl
  · -- The number moved up until it has 53 bits.
    have hlog : n.log2 ≤ 52 := Nat.le_of_lt_succ ((Nat.log2_lt hpos.ne').mpr hlt)
    have hfull : 2 ^ 52 ≤ n * 2 ^ (52 - n.log2) := by
      calc 2 ^ 52 = 2 ^ n.log2 * 2 ^ (52 - n.log2) := by
            rw [← Nat.pow_add, Nat.add_sub_cancel' hlog]
        _ ≤ n * 2 ^ (52 - n.log2) := Nat.mul_le_mul_right _ (Nat.log2_self_le hpos.ne')
    have hle : n * 2 ^ (52 - n.log2) ≤ 2 ^ 53 := by
      have hbits : n.log2 + 1 + (52 - n.log2) = 53 := by omega
      calc n * 2 ^ (52 - n.log2) ≤ 2 ^ (n.log2 + 1) * 2 ^ (52 - n.log2) :=
            Nat.mul_le_mul_right _ Nat.lt_log2_self.le
        _ = 2 ^ 53 := by rw [← Nat.pow_add, hbits]
    have hshift : exponent - 52 + n.log2 ≤ 1074 := by omega
    obtain ⟨m, hm⟩ := exists_units_eq_shifted hle (.inr hfull) hshift
    have hsum : 52 - n.log2 + (exponent - 52 + n.log2) = exponent := by omega
    refine ⟨m, ?_⟩
    rw [hm, Nat.mul_assoc, ← Nat.pow_add, hsum]
  · exact exists_units_eq_shifted le_rfl (.inr (by decide)) hexponent.le

/-- A double is a whole number; the sign of a zero does not matter. -/
def IsInt (x : Double) (n : Int) : Prop :=
  ∃ negative m, x = .finite negative m ∧ m.units = n.natAbs * unitsPerOne ∧
    signed negative n.natAbs = n

variable {x y : Double} {a b n : Int}

theorem signed_zero (negative : Bool) : signed negative 0 = 0 := by
  cases negative <;> rfl

theorem signed_natAbs (n : Int) : signed (n < 0) n.natAbs = n := by
  rw [signed]
  split_ifs with h <;> simp only [decide_eq_true_eq] at h <;> omega

theorem signed_mul (negative negative' : Bool) (size size' : Nat) :
    signed (negative != negative') (size * size') =
      signed negative size * signed negative' size' := by
  cases negative <;> cases negative' <;> simp [signed]

/-- A quotient in units that is a whole number of at most 53 bits is not rounded. -/
theorem isInt_ofUnits {negative : Bool} {numerator denominator : Nat} (hn : n.natAbs ≤ 2 ^ 53)
    (hsign : signed negative n.natAbs = n) (h : 0 < denominator)
    (heq : numerator = n.natAbs * unitsPerOne * denominator) :
    (ofUnits negative numerator denominator).IsInt n := by
  obtain ⟨m, hm⟩ := exists_units_eq hn
  refine ⟨negative, m, ?_, hm, hsign⟩
  rw [heq, ← hm]
  exact m.ofUnits_units negative h

theorem isInt_ofInt (hn : n.natAbs ≤ 2 ^ 53) : (ofInt n).IsInt n :=
  isInt_ofUnits hn (signed_natAbs n) Nat.one_pos (Nat.mul_one _).symm

theorem IsInt.integer?_eq (h : x.IsInt n) : x.integer? = some n := by
  obtain ⟨negative, m, rfl, hm, hsign⟩ := h
  rw [integer?, hm, Nat.mul_mod_left, if_pos rfl, Nat.mul_div_cancel _ unitsPerOne_pos, hsign]

theorem IsInt.position?_eq (h : x.IsInt n) : x.position? = some (n * unitsPerOne) := by
  obtain ⟨negative, m, rfl, hm, hsign⟩ := h
  rw [position?, hm]
  nth_rewrite 2 [← hsign]
  cases negative <;> simp [signed]

/-- Whole doubles are ordered as the numbers are. -/
theorem IsInt.compare?_eq (hx : x.IsInt a) (hy : y.IsInt b) :
    x.compare? y = some (compare a b) := by
  have hpos : (0 : Int) < unitsPerOne := Int.natCast_pos.mpr unitsPerOne_pos
  rw [compare?, hx.position?_eq, hy.position?_eq]
  apply congrArg some
  rcases lt_trichotomy a b with hlt | rfl | hgt
  · rw [compare_lt_iff_lt.mpr hlt, compare_lt_iff_lt.mpr (mul_lt_mul_of_pos_right hlt hpos)]
  · rw [compare_eq_iff_eq.mpr rfl, compare_eq_iff_eq.mpr rfl]
  · rw [compare_gt_iff_gt.mpr hgt, compare_gt_iff_gt.mpr (mul_lt_mul_of_pos_right hgt hpos)]

theorem IsInt.neg (h : x.IsInt n) : x.neg.IsInt (-n) := by
  obtain ⟨negative, m, rfl, hm, hsign⟩ := h
  refine ⟨!negative, m, rfl, by rw [hm, Int.natAbs_neg], ?_⟩
  rw [Int.natAbs_neg]
  cases negative <;> simp only [signed, Bool.not_true, Bool.not_false, if_true, if_false,
    Bool.false_eq_true] at hsign ⊢ <;> omega

theorem IsInt.add (hx : x.IsInt a) (hy : y.IsInt b) (h : (a + b).natAbs ≤ 2 ^ 53) :
    (x + y).IsInt (a + b) := by
  obtain ⟨negative, m, rfl, hm, hsign⟩ := hx
  obtain ⟨negative', m', rfl, hm', hsign'⟩ := hy
  have hscaled : ∀ (negative : Bool) (size : Nat),
      signed negative (size * unitsPerOne) = signed negative size * unitsPerOne := by
    intro negative size
    cases negative <;> simp [signed]
  have hsum : signed negative m.units + signed negative' m'.units = (a + b) * unitsPerOne := by
    rw [hm, hm', hscaled, hscaled, hsign, hsign', Int.add_mul]
  change (Double.add _ _).IsInt _
  simp only [Double.add, hsum]
  have hpos : (0 : Int) < unitsPerOne := Int.natCast_pos.mpr unitsPerOne_pos
  refine isInt_ofUnits h ?_ Nat.one_pos ?_
  · simp only [mul_eq_zero, hpos.ne', or_false, mul_neg_iff, hpos, hpos.not_gt, and_true,
      and_false, false_or]
    by_cases hzero : a + b = 0
    · rw [if_pos hzero, hzero]
      exact signed_zero _
    · rw [if_neg hzero]
      exact signed_natAbs _
  · rw [Int.natAbs_mul, Int.natAbs_natCast, Nat.mul_one]

theorem IsInt.sub (hx : x.IsInt a) (hy : y.IsInt b) (h : (a - b).natAbs ≤ 2 ^ 53) :
    (x - y).IsInt (a - b) := by
  rw [Int.sub_eq_add_neg] at h ⊢
  exact hx.add hy.neg h

theorem IsInt.mul (hx : x.IsInt a) (hy : y.IsInt b) (h : (a * b).natAbs ≤ 2 ^ 53) :
    (x * y).IsInt (a * b) := by
  obtain ⟨negative, m, rfl, hm, hsign⟩ := hx
  obtain ⟨negative', m', rfl, hm', hsign'⟩ := hy
  change (Double.mul _ _).IsInt _
  rw [Double.mul]
  refine isInt_ofUnits h ?_ unitsPerOne_pos ?_
  · rw [Int.natAbs_mul, signed_mul, hsign, hsign']
  · rw [hm, hm', Int.natAbs_mul]
    ring

/-- The quotient of two whole numbers, as a quotient in units. -/
theorem IsInt.exists_div_eq (hx : x.IsInt a) (hy : y.IsInt b) (hb : b ≠ 0) :
    ∃ negative negative', signed negative a.natAbs = a ∧ signed negative' b.natAbs = b ∧
      x / y = ofUnits (negative != negative') (a.natAbs * unitsPerOne) b.natAbs := by
  obtain ⟨negative, m, rfl, hm, hsign⟩ := hx
  obtain ⟨negative', m', rfl, hm', hsign'⟩ := hy
  have hpos : 0 < b.natAbs := Int.natAbs_pos.mpr hb
  have hunits : 0 < m'.units := by
    rw [hm']
    exact Nat.mul_pos hpos unitsPerOne_pos
  refine ⟨negative, negative', hsign, hsign', ?_⟩
  change Double.div _ _ = _
  rw [Double.div, if_neg hunits.ne']
  refine ofUnits_congr _ ?_ hunits hpos
  rw [hm, hm']
  ring

theorem IsInt.div (hx : x.IsInt a) (hy : y.IsInt b) (hb : b ≠ 0) (hdvd : b ∣ a)
    (h : (a / b).natAbs ≤ 2 ^ 53) : (x / y).IsInt (a / b) := by
  obtain ⟨negative, negative', hsign, hsign', hdiv⟩ := hx.exists_div_eq hy hb
  obtain ⟨q, rfl⟩ := hdvd
  rw [Int.natAbs_mul] at hsign hdiv
  rw [Int.mul_ediv_cancel_left q hb] at h ⊢
  rw [hdiv]
  refine isInt_ofUnits h ?_ (Int.natAbs_pos.mpr hb) ?_
  · apply Int.eq_of_mul_eq_mul_right hb
    calc signed (negative != negative') q.natAbs * b
        = signed (negative != negative') q.natAbs * signed negative' b.natAbs := by rw [hsign']
      _ = signed negative (b.natAbs * q.natAbs) := by
        rw [← signed_mul, Nat.mul_comm]
        cases negative <;> cases negative' <;> rfl
      _ = q * b := by rw [hsign, Int.mul_comm]
  · ring

/-- Rounding a quotient of whole numbers to another whole number moves it by at least one part in
the divisor. -/
theorem exists_shift_of_nearest_whole {numerator denominator whole : Nat} (hpos : 0 < denominator)
    (h : Magnitude.unitsOf (nearestOrdinal (numerator * unitsPerOne) denominator) =
      whole * unitsPerOne) (hnot : ¬ denominator ∣ numerator) :
    ∃ shift, shift = (numerator * unitsPerOne / denominator).log2 - 52 ∧
      2 * unitsPerOne ≤ denominator * 2 ^ shift := by
  obtain ⟨shift, hshift, habove, hbelow⟩ :=
    Magnitude.unitsOf_nearestOrdinal (numerator * unitsPerOne) hpos
  have hproduct : whole * unitsPerOne * denominator = whole * denominator * unitsPerOne := by
    ring
  rw [h, hproduct] at habove hbelow
  refine ⟨shift, hshift, ?_⟩
  have hne : numerator ≠ whole * denominator := by
    rintro rfl
    exact hnot (Nat.dvd_mul_left _ _)
  rcases Nat.lt_or_gt_of_ne hne with hlt | hgt
  · have hgap := Nat.mul_le_mul_right unitsPerOne (Nat.succ_le_of_lt hlt)
    rw [Nat.succ_mul] at hgap
    omega
  · have hgap := Nat.mul_le_mul_right unitsPerOne (Nat.succ_le_of_lt hgt)
    rw [Nat.succ_mul] at hgap
    omega

/-- A divisor that makes twice the units of one when shifted is a power of two. -/
theorem dvd_of_mul_two_pow_eq {denominator shift : Nat} (hd : denominator ≤ 2 ^ 53)
    (h : denominator * 2 ^ shift = 2 * unitsPerOne) : denominator ∣ 2 ^ 53 := by
  obtain ⟨exponent, -, hunits⟩ := exists_unitsPerOne_eq
  have hdvd : denominator ∣ 2 ^ (exponent + 1) := by
    rw [Nat.pow_succ, Nat.mul_comm, ← hunits, ← h]
    exact Nat.dvd_mul_right _ _
  obtain ⟨i, -, rfl⟩ := (Nat.dvd_prime_pow Nat.prime_two).mp hdvd
  exact Nat.pow_dvd_pow 2 ((Nat.pow_le_pow_iff_right (by decide)).mp hd)

/-- A quotient of whole numbers that is rounded to a whole number was one. Only the largest dividend
can be moved far enough, over a divisor that is a power of two, where there is nothing to round. -/
theorem dvd_of_nearest_whole {numerator denominator whole : Nat} (hn : numerator ≤ 2 ^ 53)
    (hd : denominator ≤ 2 ^ 53) (hpos : 0 < denominator)
    (h : Magnitude.unitsOf (nearestOrdinal (numerator * unitsPerOne) denominator) =
      whole * unitsPerOne) : denominator ∣ numerator := by
  by_contra hnot
  obtain ⟨shift, hshift, hmoved⟩ := exists_shift_of_nearest_whole hpos h hnot
  rcases Nat.eq_zero_or_pos shift with hzero | hshifted
  · -- Without a shift the error is below one unit, and a divisor has too few of them.
    obtain ⟨exponent, hexponent, hunits⟩ := exists_unitsPerOne_eq
    have hlarge : 2 ^ 53 ≤ unitsPerOne := by
      rw [hunits]
      exact Nat.pow_le_pow_right (by decide) (by omega)
    rw [hzero, Nat.pow_zero, Nat.mul_one] at hmoved
    omega
  · have hfull : denominator * 2 ^ shift * 2 ^ 52 ≤ numerator * unitsPerOne := by
      have hquotient := Magnitude.two_pow_mul_le_of_shift hshift hshifted
      rw [Nat.le_div_iff_mul_le hpos] at hquotient
      calc denominator * 2 ^ shift * 2 ^ 52 = 2 ^ 52 * 2 ^ shift * denominator := by ring
        _ ≤ numerator * unitsPerOne := hquotient
    have hlargest : 2 ^ 53 ≤ numerator := by
      have hunits : 2 ^ 53 * unitsPerOne ≤ numerator * unitsPerOne := by omega
      exact Nat.le_of_mul_le_mul_right hunits unitsPerOne_pos
    obtain rfl : numerator = 2 ^ 53 := Nat.le_antisymm hn hlargest
    have htwice : denominator * 2 ^ shift = 2 * unitsPerOne := by omega
    exact hnot (dvd_of_mul_two_pow_eq hd htwice)

/-- A quotient of whole numbers of at most 53 bits that is not whole is not read as one. -/
theorem IsInt.integer?_div_eq_none (hx : x.IsInt a) (hy : y.IsInt b) (ha : a.natAbs ≤ 2 ^ 53)
    (hb : b.natAbs ≤ 2 ^ 53) (hzero : b ≠ 0) (h : ¬ b ∣ a) : (x / y).integer? = none := by
  obtain ⟨negative, negative', -, -, hdiv⟩ := hx.exists_div_eq hy hzero
  rw [hdiv, ofUnits]
  split_ifs with hordinal
  · rw [integer?]
    split_ifs with hwhole
    · refine absurd ?_ h
      rw [← Int.natAbs_dvd_natAbs]
      obtain ⟨whole, hwhole⟩ := Nat.dvd_of_mod_eq_zero hwhole
      exact dvd_of_nearest_whole ha hb (Int.natAbs_pos.mpr hzero)
        (hwhole.trans (Nat.mul_comm _ _))
    · rfl
  · rfl

end Reckon.Double
