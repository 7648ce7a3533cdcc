import Calculator.Proofs.Binary64.Negation
import Calculator.Proofs.Binary64.WholeNumbers
import Calculator.Proofs.Elementary.Domains

namespace Calculator.Elementary

open Binary64 (exactValue? toInt? natPow abs)

variable {x y : Float} {a : ℚ} {n : ℤ}

theorem finite_negate (x : Float) : finite (-x) = (finite x).map (-·) := by
  unfold finite
  rw [Binary64.isFinite_negate]
  split <;> rfl

theorem reciprocalPower_negate (x : Float) (n : ℕ) :
    reciprocalPower (-x) n = if Even n then reciprocalPower x n else -reciprocalPower x n := by
  unfold reciprocalPower
  rw [Binary64.natPow_negate, Binary64.div_negate, Binary64.natPow_negate]
  by_cases even : Even n
  · simp only [if_pos even]
  · simp only [if_neg even, Binary64.isFinite_negate, Binary64.div_negate]
    exact (apply_ite Neg.neg _ _ _).symm

theorem integerPower_negate (x : Float) (n : ℤ) :
    integerPower (-x) n = if Even n then integerPower x n else (integerPower x n).map (-·) := by
  unfold integerPower
  rw [Binary64.negate_beq_zero, reciprocalPower_negate, Binary64.natPow_negate]
  by_cases even : Even n
  · have magnitude : Even n.natAbs := Int.natAbs_even.mpr even
    simp only [if_pos even, if_pos magnitude]
  · have magnitude : ¬ Even n.natAbs := Int.natAbs_even.not.mpr even
    simp only [if_neg even, if_neg magnitude, finite_negate]
    split_ifs <;> rfl

/-- A whole real of more than 53 binary digits ends with a zero. -/
theorem even_of_great (whole : exactValue? y = some (n : ℚ)) (great : ¬ n.natAbs ≤ maxIntegerExponent) : Even n := by
  apply (Binary64.isShortWhole_of_representable (Binary64.nearestReal?_of_exactValue? whole)).even_of_long
  unfold maxIntegerExponent at great
  rw [Int.abs_eq_natAbs]
  omega

theorem realPower_abs_negate (x y : Float) : realPower (abs (-x)) y = realPower (abs x) y := by
  rcases Binary64.abs_negate x with same | zero
  · rw [same]
  · have first := Binary64.exactValue?_abs zero
    have second := Binary64.exactValue?_abs (Binary64.exactValue?_neg zero)
    rw [neg_zero] at second
    rw [abs_zero] at first second
    rw [realPower_zero_base first, realPower_zero_base second]

theorem power_negate (exponent : exactValue? y = some (n : ℚ)) (x : Float) :
    power (-x) y = if Even n then power x y else (power x y).map (-·) := by
  have whole := Binary64.toInt?_eq_some_iff.mpr exponent
  by_cases bound : n.natAbs ≤ maxIntegerExponent
  · rw [power_of_whole_exponent whole bound, power_of_whole_exponent whole bound, integerPower_negate]
  · rw [power_of_great_exponent whole bound, power_of_great_exponent whole bound,
      if_pos (even_of_great exponent bound), realPower_abs_negate]

theorem exactValue?_twoPow {e : ℤ} (least : -1074 ≤ e) (most : e ≤ 971) : exactValue? (twoPow e) = some (2 ^ e) := by
  rw [twoPow, Binary64.exactValue?_nearest_of_short .positive (by decide) least most, Binary64.apply_positive,
    Nat.cast_one, one_mul]

/-- Powers of opposite numbers are both too great, or they are finite and differ by the sign at most. -/
theorem power_opposite_bases (base : exactValue? x = some a) (nonzero : a ≠ 0)
    (exponent : exactValue? y = some (n : ℚ)) :
    (power x y = .error .overflow ∧ power (-x) y = .error .overflow) ∨
      ∃ z, z.isFinite = true ∧ power x y = .ok z ∧ power (-x) y = .ok (if Even n then z else -z) := by
  rw [power_negate exponent]
  rcases finiteOrOverflow_power_of_whole base nonzero (Binary64.toInt?_eq_some_iff.mpr exponent) with
    failed | ⟨z, result, finite⟩
  · rw [failed]
    exact .inl ⟨rfl, ite_self _⟩
  · rw [result]
    exact .inr ⟨z, finite, rfl, (apply_ite Except.ok _ _ _).symm⟩

/-- The cube of 2 ^ 700 is infinite, so its reciprocal is reached through that of the base. It is a zero with a sign. -/
theorem power_opposite_bases_reciprocal :
    exactValue? (twoPow 700) = some (2 ^ (700 : ℤ)) ∧ (2 ^ (700 : ℤ) : ℚ) ≠ 0 ∧
      exactValue? (-3) = some ((-3 : ℤ) : ℚ) ∧
      ∃ z, z.isFinite = true ∧ power (twoPow 700) (-3) = .ok z ∧
        power (-twoPow 700) (-3) = .ok (-z) := by
  have base : exactValue? (twoPow 700) = some (2 ^ (700 : ℤ)) := exactValue?_twoPow (by decide) (by decide)
  have nonzero : (2 ^ (700 : ℤ) : ℚ) ≠ 0 := (Binary64.unit_pos _).ne'
  have exponent : exactValue? (-3) = some ((-3 : ℤ) : ℚ) := Binary64.toInt?_eq_some_iff.mp (by rfl)
  have odd : ¬ Even (-3 : ℤ) := by decide
  have succeeds : (power (twoPow 700) (-3)).isOk = true := by decide +kernel
  refine ⟨base, nonzero, exponent, ?_⟩
  rcases power_opposite_bases base nonzero exponent with ⟨failed, -⟩ | ⟨z, finite, result, opposite⟩
  · rw [failed] at succeeds
    cases succeeds
  · rw [if_neg odd] at opposite
    exact ⟨z, finite, result, opposite⟩

end Calculator.Elementary
