import Calculator.Proofs.Elementary.Snapping

namespace Calculator

open Binary64 (exactValue? sign? halfAway abs Near roundoff)
open Float.Model.UnpackedFloat (Sign)

variable {a u x : Float} {q v : ℚ}

namespace Binary64

theorem sign?_of_isFinite {s : Sign} (signed : sign? x = none ∨ sign? x = some s) (finite : x.isFinite = true) :
    sign? x = some s := by
  refine signed.resolve_left fun none => ?_
  rw [sign?_eq_none_iff, isNaN_of_isFinite finite] at none
  cases none

theorem sign?_roundShown (known : exactValue? x = some q) (positive : 0 < q) :
    sign? (roundShown x) = some .positive := by
  have finite := isFinite_roundShown (isFinite_iff_exactValue?.mpr ⟨q, known⟩)
  unfold roundShown roundTo at finite ⊢
  split
  · exact sign?_of_pos known positive
  · rename_i below
    rw [if_neg below] at finite
    have scale := sign?_of_pos exactValue?_shownScale (by norm_num)
    have whole : sign? (round (x * intPow 10 shownPlaces)) = some .positive := by
      refine sign?_of_isFinite ?_ (isFinite_of_div finite)
      rw [round, sign?_mapMagnitude]
      exact sign?_mul (sign?_of_pos known positive) scale
    exact sign?_of_isFinite (sign?_div whole scale) finite

end Binary64

namespace Elementary

section Unsnapped

variable (known : exactValue? a = some q) (positive : 0 < q)
include known positive

theorem exists_power_half : ∃ e, power a 0.5 = .ok e := by
  have logarithm := abs_log_le known positive
  have tiny := Binary64.roundoff_lt
  have error := Binary64.roundoff_pos
  have near : Near 0.5 (1 / 2) (roundoff * |(1 / 2 : ℝ)|) := by
    have half := Binary64.near_of_exactValue? exactValue?_half_exponent
    rw [Rat.cast_div, Rat.cast_one, Rat.cast_ofNat] at half
    exact half.mono (mul_nonneg error.le (abs_nonneg _))
  obtain ⟨p, product, close⟩ := near_exponent known positive near (by norm_num) (by norm_num)
  have bound : |(p : ℝ)| ≤ 700 := by
    have size : |1 / 2 * Real.log q| ≤ 373 := by
      rw [abs_mul, abs_of_pos (by norm_num : (0 : ℝ) < 1 / 2)]
      linarith
    have triangle := abs_sub_abs_le_abs_sub (p : ℝ) (1 / 2 * Real.log q)
    rw [abs_of_pos (by norm_num : (0 : ℝ) < 1 / 2)] at close
    nlinarith
  obtain ⟨lower, upper⟩ := abs_le.mp bound
  rw [power_of_fraction (toInt?_of_fraction exactValue?_half_exponent (by norm_num) (by norm_num)),
    if_neg ((Binary64.lt_zero_iff known).not.mpr positive.le.not_gt), realPower_of_pos known positive]
  exact exists_exp product (by exact_mod_cast lower) (by exact_mod_cast upper)

theorem exists_refined : ∃ e z, power a 0.5 = .ok e ∧ exactValue? (newtonStep e a 2) = some z ∧
    |(z : ℝ) - Real.sqrt q| ≤ 1 / 10 ^ 11 * Real.sqrt q := by
  have logarithm := abs_log_le known positive
  have above : (0 : ℝ) < q := Rat.cast_pos.mpr positive
  obtain ⟨e, estimate⟩ := exists_power_half known positive
  obtain ⟨z, value, close⟩ := near_squareRoot known positive estimate
  have root : Real.exp (Real.log q / 2) = Real.sqrt q := by
    rw [Real.exp_half, Real.exp_log above]
  rw [root] at close
  refine ⟨e, z, estimate, value, close.trans (mul_le_mul_of_nonneg_right ?_ (Real.sqrt_nonneg _))⟩
  have size : |Real.log q / 2| ≤ 373 := by
    rw [abs_div, abs_two]
    linarith
  rw [Binary64.roundoff_eq]
  linarith

theorem exists_unsnappedSqrt : ∃ u v, unsnappedSqrt a = .ok u ∧ exactValue? u = some v ∧ sign? u = some .positive ∧
    |(v : ℝ) - Real.sqrt q| ≤ 1 / (2 * 10 ^ 10) + 1 / 10 ^ 19 + 2 / 10 ^ 11 * Real.sqrt q := by
  obtain ⟨e, z, estimate, value, close⟩ := exists_refined known positive
  have root : 0 < Real.sqrt q := Real.sqrt_pos.mpr (Rat.cast_pos.mpr positive)
  obtain ⟨lower, upper⟩ := abs_le.mp close
  have above : (0 : ℝ) < z := by linarith
  obtain ⟨v, shown, error⟩ := Binary64.near_roundShown value
  refine ⟨_, v, ?_, shown, ?_, ?_⟩
  · rw [unsnappedSqrt, estimate]
    rfl
  · exact Binary64.sign?_roundShown value (by exact_mod_cast above)
  · rw [abs_of_pos above, Binary64.roundoff_eq] at error
    linarith [abs_sub_le (v : ℝ) z (Real.sqrt q)]

end Unsnapped

section Snapped

variable (known : exactValue? a = some q) (positive : 0 < q)
include known positive

theorem sqrt_of_unsnapped (root : unsnappedSqrt a = .ok u) : sqrt a = .ok
    (if abs (Binary64.round u * Binary64.round u - a) < rootTolerance then Binary64.round u else u) := by
  rw [sqrt, if_neg ((Binary64.lt_zero_iff known).not.mpr positive.le.not_gt), root]
  rfl

/-- Zero passes the test for all radicands below the tolerance. -/
theorem sqrt_of_small (small : q < 1 / 10 ^ 10) : sqrt a = .ok 0 := by
  obtain ⟨u, v, root, value, signed, close⟩ := exists_unsnappedSqrt known positive
  obtain ⟨t, tolerance, bound, -⟩ := exists_rootTolerance
  have small' : (q : ℝ) ≤ (1 / 10 ^ 5) ^ 2 := by
    have cast := Rat.cast_le (K := ℝ) |>.mpr small.le
    push_cast at cast
    exact cast.trans (by norm_num)
  have size : Real.sqrt q ≤ 1 / 10 ^ 5 := Real.sqrt_le_iff.mpr ⟨by norm_num, small'⟩
  have near : |(v : ℝ)| < 1 / 2 := by
    obtain ⟨lower, upper⟩ := abs_le.mp close
    rw [abs_lt]
    constructor <;> linarith [Real.sqrt_nonneg (q : ℝ)]
  have near' : |v| < 1 / 2 := by
    rw [← Rat.cast_lt (K := ℝ)]
    push_cast
    exact near
  have zero : halfAway v = 0 := by
    have triangle := abs_sub_abs_le_abs_sub (halfAway v : ℚ) v
    have single : |(halfAway v : ℚ)| < 1 := by linarith [Binary64.abs_halfAway_sub_le v]
    have single' : |halfAway v| < 1 := by exact_mod_cast single
    exact Int.abs_lt_one_iff.mp single'
  have whole := Binary64.exactValue?_round value
  rw [zero, Int.cast_zero] at whole
  have square := Binary64.exactValue?_mul whole whole
  rw [zero_mul, Binary64.nearestReal?_zero] at square
  have difference := Binary64.exactValue?_sub square known
  rw [zero_sub, Binary64.nearestReal?_of_exactValue? (Binary64.exactValue?_neg known)] at difference
  have test : abs (Binary64.round u * Binary64.round u - a) < rootTolerance := by
    rw [Binary64.lt_iff_value_lt (Binary64.exactValue?_abs difference) tolerance, abs_neg, abs_of_pos positive]
    exact small.trans_le bound
  rw [sqrt_of_unsnapped known positive root, if_pos test]
  rcases Binary64.eq_zero_or_negative_zero whole with same | opposite
  · rw [same]
  · rw [← Binary64.sign?_mapMagnitude, ← Binary64.round, opposite] at signed
    cases signed

omit known positive in
theorem NoiseRemoved.bounds {d : Float} (removed : NoiseRemoved a d u) (value : exactValue? u = some v)
    (above : (1 : ℝ) / 10 ^ 6 ≤ v) :
    ∃ r, exactValue? d = some r ∧ 0 ≤ r ∧ (r : ℝ) ≤ v + (1 / 10 ^ 10 + 1 / 10 ^ 12 * v) := by
  rcases removed with rfl | ⟨r, v', moved, value', near | ⟨rfl, -, -⟩⟩
  · exact ⟨v, value, by exact_mod_cast (by linarith : (0 : ℝ) ≤ v), by linarith⟩
  · obtain rfl := Option.some.inj (value.symm.trans value')
    have near' : |(r : ℝ) - v| < 1 / 10 ^ 10 + 1 / 10 ^ 12 * v := by
      have cast := Rat.cast_lt (K := ℝ) |>.mpr near
      push_cast at cast
      rwa [abs_of_pos (by linarith : (0 : ℝ) < v)] at cast
    obtain ⟨lower, upper⟩ := abs_lt.mp near'
    exact ⟨r, moved, by exact_mod_cast (by linarith : (0 : ℝ) ≤ r), by linarith⟩
  · exact ⟨0, moved, le_rfl, by rw [Rat.cast_zero]; linarith⟩

theorem exists_sqrt_le (large : 1 / 10 ^ 10 ≤ q) :
    ∃ d r, sqrt a = .ok d ∧ exactValue? d = some r ∧ 0 ≤ r ∧ r ^ 2 ≤ 101 / 100 * q := by
  obtain ⟨u, v, root, value, -, close⟩ := exists_unsnappedSqrt known positive
  have large' : (1 / 10 ^ 5) ^ 2 ≤ (q : ℝ) := by
    have cast := Rat.cast_le (K := ℝ) |>.mpr large
    push_cast at cast
    exact le_trans (by norm_num) cast
  have size : 1 / 10 ^ 5 ≤ Real.sqrt q := Real.le_sqrt_of_sq_le large'
  have square : Real.sqrt q ^ 2 = q := Real.sq_sqrt (Rat.cast_nonneg.mpr positive.le)
  obtain ⟨lower, upper⟩ := abs_le.mp close
  have above : (1 : ℝ) / 10 ^ 6 ≤ v := by linarith
  have result := sqrt_of_unsnapped known positive root
  obtain ⟨u', root', removed⟩ := noiseRemoved_sqrt result
  obtain rfl := Except.ok.inj (root.symm.trans root')
  obtain ⟨r, moved, nonnegative, most⟩ := removed.bounds value above
  refine ⟨_, r, result, moved, nonnegative, ?_⟩
  have nonnegative' : (0 : ℝ) ≤ r := Rat.cast_nonneg.mpr nonnegative
  have ratio : (r : ℝ) ≤ 10001 / 10000 * Real.sqrt q := by linarith
  rw [← Rat.cast_le (K := ℝ)]
  push_cast
  calc (r : ℝ) ^ 2 ≤ (10001 / 10000 * Real.sqrt q) ^ 2 := pow_le_pow_left₀ nonnegative' ratio 2
    _ ≤ 101 / 100 * Real.sqrt q ^ 2 := by nlinarith [sq_nonneg (Real.sqrt (q : ℝ))]
    _ = 101 / 100 * q := by rw [square]

end Snapped

end Elementary

end Calculator
