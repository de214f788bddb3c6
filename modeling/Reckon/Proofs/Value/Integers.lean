import Reckon.Evaluation.Operators
import Reckon.Proofs.Double.Whole

/-!
Operators between integers. They are computed with doubles, which changes
nothing for integers up to `2 ^ 53`: these are compared as integers, and they
are added, subtracted, multiplied and divided as integers wherever the result
is such an integer again. A quotient that is none is a double with a fraction.
-/

namespace Reckon

theorem Comparison.holds_compare (a b : Int) :
    lt.holds (compare a b) = decide (a < b) ∧ le.holds (compare a b) = decide (a ≤ b) ∧
      ge.holds (compare a b) = decide (a ≥ b) ∧ gt.holds (compare a b) = decide (a > b) := by
  rcases lt_trichotomy a b with hlt | rfl | hgt
  · rw [compare_lt_iff_lt.mpr hlt]
    simp [holds, hlt, hlt.le]
  · rw [compare_eq_iff_eq.mpr rfl]
    simp [holds]
  · rw [compare_gt_iff_gt.mpr hgt]
    simp [holds, hgt, hgt.le]

namespace Double

variable {x y : Double} {a b : Int}

theorem IsInt.ofDoubles_eq (op : Comparison) (hx : x.IsInt a) (hy : y.IsInt b) :
    op.ofDoubles x y = op.holds (compare a b) := by
  rw [Comparison.ofDoubles, hx.compare?_eq hy]

/-- Every operation on whole numbers finds the whole number that it has for a result. -/
theorem IsInt.apply {op : Arithmetic} (hx : x.IsInt a) (hy : y.IsInt b)
    (hdiv : op = .div → b ≠ 0 ∧ b ∣ a) (h : (op.apply a b).natAbs ≤ 2 ^ 53) :
    (op.apply x y).IsInt (op.apply a b) := by
  cases op with
  | add => exact hx.add hy h
  | sub => exact hx.sub hy h
  | mul => exact hx.mul hy h
  | div =>
    obtain ⟨hb, hdvd⟩ := hdiv rfl
    exact hx.div hy hb hdvd h

end Double

namespace Value

variable {l r : Int64} {symbol : String}

/-- A double that is a whole number of at most 53 bits becomes the integer. -/
theorem ofDouble_eq_integer {x : Double} {n : Int} (h : x.IsInt n) (hn : n.natAbs ≤ 2 ^ 53) :
    ∃ k : Int64, k.toInt = n ∧ ofDouble x = integer k := by
  have hlow : Int64.minValue.toInt ≤ n := by
    rw [Int64.toInt_minValue]
    omega
  have hhigh : n ≤ Int64.maxValue.toInt := by
    rw [Int64.toInt_maxValue]
    omega
  refine ⟨.ofInt n, ?_, ?_⟩
  · rw [Int64.toInt_minValue] at hlow
    rw [Int64.toInt_maxValue] at hhigh
    apply Int64.toInt_ofInt_of_le <;> omega
  · rw [ofDouble, h.integer?_eq]
    exact if_pos ⟨hlow, hhigh⟩

theorem ofDouble_eq_double {x : Double} (h : x.integer? = none) : ofDouble x = double x := by
  rw [ofDouble, h]

theorem binary_integer_comparison (op : Comparison)
    (hsymbol : BinaryOperator.ofText? symbol = some (.comparison op))
    (hl : l.toInt.natAbs ≤ 2 ^ 53) (hr : r.toInt.natAbs ≤ 2 ^ 53) :
    binary (.integer l) symbol (.integer r) =
      .ok (.boolean (op.holds (compare l.toInt r.toInt))) := by
  rw [← (Double.isInt_ofInt hl).ofDoubles_eq op (Double.isInt_ofInt hr), binary, hsymbol]
  rfl

theorem binary_integer_arithmetic (op : Arithmetic)
    (hsymbol : BinaryOperator.ofText? symbol = some (.arithmetic op)) :
    binary (.integer l) symbol (.integer r) =
      .ok (ofDouble (op.apply (.ofInt l.toInt) (.ofInt r.toInt))) := by
  rw [binary, hsymbol]
  rfl

theorem binary_integer_exact (op : Arithmetic)
    (hsymbol : BinaryOperator.ofText? symbol = some (.arithmetic op))
    (hl : l.toInt.natAbs ≤ 2 ^ 53) (hr : r.toInt.natAbs ≤ 2 ^ 53)
    (hdiv : op = .div → r.toInt ≠ 0 ∧ r.toInt ∣ l.toInt)
    (h : (op.apply l.toInt r.toInt).natAbs ≤ 2 ^ 53) :
    ∃ n : Int64, n.toInt = op.apply l.toInt r.toInt ∧
      binary (.integer l) symbol (.integer r) = .ok (.integer n) := by
  have hwhole := (Double.isInt_ofInt hl).apply (Double.isInt_ofInt hr) hdiv h
  obtain ⟨n, hn, hvalue⟩ := ofDouble_eq_integer hwhole h
  refine ⟨n, hn, ?_⟩
  rw [binary_integer_arithmetic op hsymbol, hvalue]

/-- A quotient that is not whole stays a double, and that one is not whole either. -/
theorem binary_integer_div_of_not_dvd (hl : l.toInt.natAbs ≤ 2 ^ 53)
    (hr : r.toInt.natAbs ≤ 2 ^ 53) (hzero : r.toInt ≠ 0) (h : ¬ r.toInt ∣ l.toInt) :
    ∃ x, binary (.integer l) "/" (.integer r) = .ok (.double x) ∧ x.integer? = none := by
  have hnone := (Double.isInt_ofInt hl).integer?_div_eq_none (Double.isInt_ofInt hr) hl hr hzero h
  refine ⟨_, ?_, hnone⟩
  rw [binary_integer_arithmetic .div rfl, Arithmetic.apply, ofDouble_eq_double hnone]

/-- Operators between integers up to `2 ^ 53` are those of the integers, as far as the results are
such integers again. The quotient is an integer just if the division leaves no rest, and else a
double. -/
theorem binary_integers (hl : l.toInt.natAbs ≤ 2 ^ 53) (hr : r.toInt.natAbs ≤ 2 ^ 53) :
    (binary (.integer l) "<" (.integer r) = .ok (.boolean (l.toInt < r.toInt)) ∧
      binary (.integer l) "<=" (.integer r) = .ok (.boolean (l.toInt ≤ r.toInt)) ∧
      binary (.integer l) ">=" (.integer r) = .ok (.boolean (l.toInt ≥ r.toInt)) ∧
      binary (.integer l) ">" (.integer r) = .ok (.boolean (l.toInt > r.toInt))) ∧
    ((l.toInt + r.toInt).natAbs ≤ 2 ^ 53 → ∃ n : Int64, n.toInt = l.toInt + r.toInt ∧
      binary (.integer l) "+" (.integer r) = .ok (.integer n)) ∧
    ((l.toInt - r.toInt).natAbs ≤ 2 ^ 53 → ∃ n : Int64, n.toInt = l.toInt - r.toInt ∧
      binary (.integer l) "-" (.integer r) = .ok (.integer n)) ∧
    ((l.toInt * r.toInt).natAbs ≤ 2 ^ 53 → ∃ n : Int64, n.toInt = l.toInt * r.toInt ∧
      binary (.integer l) "*" (.integer r) = .ok (.integer n)) ∧
    (r.toInt ≠ 0 →
      ((∃ n : Int64, n.toInt = l.toInt / r.toInt ∧
          binary (.integer l) "/" (.integer r) = .ok (.integer n)) ↔ r.toInt ∣ l.toInt) ∧
      (¬ r.toInt ∣ l.toInt →
        ∃ x, binary (.integer l) "/" (.integer r) = .ok (.double x) ∧ x.integer? = none)) := by
  obtain ⟨hlt, hle, hge, hgt⟩ := Comparison.holds_compare l.toInt r.toInt
  refine ⟨⟨?lt, ?le, ?ge, ?gt⟩, ?add, ?sub, ?mul, fun hzero => ⟨⟨?whole, ?quotient⟩, ?fraction⟩⟩
  case lt => rw [binary_integer_comparison .lt rfl hl hr, hlt]
  case le => rw [binary_integer_comparison .le rfl hl hr, hle]
  case ge => rw [binary_integer_comparison .ge rfl hl hr, hge]
  case gt => rw [binary_integer_comparison .gt rfl hl hr, hgt]
  case add => exact binary_integer_exact .add rfl hl hr nofun
  case sub => exact binary_integer_exact .sub rfl hl hr nofun
  case mul => exact binary_integer_exact .mul rfl hl hr nofun
  case fraction => exact binary_integer_div_of_not_dvd hl hr hzero
  case whole =>
    rintro ⟨n, -, hinteger⟩
    by_contra hnot
    obtain ⟨x, hdouble, -⟩ := binary_integer_div_of_not_dvd hl hr hzero hnot
    rw [hinteger] at hdouble
    cases hdouble
  case quotient =>
    intro hdvd
    refine binary_integer_exact .div rfl hl hr (fun _ => ⟨hzero, hdvd⟩) ?_
    exact (Int.natAbs_ediv_le_natAbs l.toInt r.toInt).trans hl

/-- The largest such integer over the one below it. The quotient is nearer to `1` than any other, by
half a step and a little more, and the little keeps it from being rounded to `1`. -/
theorem binary_largest_div :
    (9007199254740992 : Int64).toInt.natAbs ≤ 2 ^ 53 ∧
      (9007199254740991 : Int64).toInt.natAbs ≤ 2 ^ 53 ∧
      ∃ x, binary (.integer 9007199254740992) "/" (.integer 9007199254740991) =
        .ok (.double x) ∧ x.integer? = none := by
  have hl : (9007199254740992 : Int64).toInt.natAbs ≤ 2 ^ 53 := by decide
  have hr : (9007199254740991 : Int64).toInt.natAbs ≤ 2 ^ 53 := by decide
  obtain ⟨-, -, -, -, hquotient⟩ := binary_integers hl hr
  exact ⟨hl, hr, (hquotient (by decide)).2 (by decide)⟩

end Value

end Reckon
