import Calculator.Proofs.Elementary.LogarithmSeries
import Calculator.Proofs.Elementary.LogarithmSteps

namespace Calculator.Elementary

open Binary64 (exactValue? rounded Near roundoff)

variable {x : Float} {q : ℚ} {n : ℕ}

theorem exactValue?_lnTwo : exactValue? lnTwo = some (6243314768165357 / 9007199254740992) := by decide +kernel

theorem near_lnTwo : Near lnTwo (Real.log 2) (3 * roundoff) := by
  refine ⟨_, exactValue?_lnTwo, ?_⟩
  have tail := Real.sum_range_sub_log_div_le (by norm_num : |(1 / 3 : ℝ)| < 1) 18
  rw [show (1 + 1 / 3 : ℝ) / (1 - 1 / 3) = 2 by norm_num] at tail
  norm_num [Finset.sum_range_succ] at tail
  obtain ⟨lower, upper⟩ := abs_le.mp tail
  unfold roundoff
  rw [abs_le]
  constructor <;> push_cast <;> linarith

theorem near_steps (few : n ≤ 1100) : Near (Float.ofNat n * lnTwo) (n * Real.log 2) ((4 * n + 1) * roundoff) := by
  have error := Binary64.roundoff_pos
  have small := Binary64.roundoff_lt
  have count : (n : ℝ) ≤ 1100 := by exact_mod_cast few
  have nonnegative : (0 : ℝ) ≤ n := Nat.cast_nonneg n
  have lower := Real.log_two_gt_d9
  have upper := Real.log_two_lt_d9
  have whole := Binary64.near_of_exactValue? (Binary64.toInt?_eq_some_iff.mp (Binary64.toInt?_ofNat (n := n) (by omega)))
  rw [Int.cast_natCast, Rat.cast_natCast] at whole
  refine (whole.mul near_lnTwo (κ := 3 * n * roundoff) (M := 7 / 10 * n + 1 / 10)
    (Binary64.inRange_of_le (by linarith) (by linarith)) ?_ ?_).mono ?_
  · rw [abs_of_nonneg nonnegative]
    linarith
  · rw [abs_of_nonneg (by positivity)]
    nlinarith
  · nlinarith

theorem near_lnFromOne (known : exactValue? x = some q) (least : 1 ≤ q) :
    Near (lnFromOne x) (Real.log q) ((130 + 7 * Real.log q) * roundoff) := by
  have error := Binary64.roundoff_pos
  have small := Binary64.roundoff_lt
  have positive : 0 < q := one_pos.trans_le least
  have finite := (Binary64.representable_iff.mp (Binary64.representable_of_exactValue? known)).1
  rw [abs_of_pos positive] at finite
  obtain ⟨n, few, y, loops, value, lower, upper⟩ := exists_loops_halve (h := 1023) known least finite
  have count : (n : ℝ) ≤ 1023 := by exact_mod_cast few
  have split : n * Real.log 2 + Real.log (q / 2 ^ n : ℚ) = Real.log q := by
    push_cast
    rw [Real.log_div (by exact_mod_cast positive.ne') (by positivity), Real.log_pow]
    ring
  have rest : 0 ≤ Real.log (q / 2 ^ n : ℚ) := Real.log_nonneg (by exact_mod_cast lower)
  have rest' : Real.log (q / 2 ^ n : ℚ) ≤ Real.log 2 :=
    Real.log_le_log (by exact_mod_cast one_pos.trans_le lower) (by exact_mod_cast upper.le)
  have two := Real.log_two_gt_d9
  have two' := Real.log_two_lt_d9
  have logarithm : (n : ℝ) * (69 / 100) ≤ Real.log q := by nlinarith [Nat.cast_nonneg (α := ℝ) n]
  rw [lnFromOne_of_loops loops (by unfold maxScalings; omega), ← split]
  refine ((near_steps (few.trans (by norm_num))).add (Series.near_logarithm value lower upper.le) (M := Real.log q + 1)
    (Binary64.inRange_of_le ?_ ?_) ?_).mono ?_
  · nlinarith [Nat.cast_nonneg (α := ℝ) n]
  · nlinarith
  · rw [split, abs_of_nonneg (by nlinarith [Nat.cast_nonneg (α := ℝ) n])]
    nlinarith
  · rw [split]
    nlinarith

theorem near_lnNormal (known : exactValue? x = some q) (normal : 2 ^ (-1022 : ℤ) ≤ q) :
    Near (lnNormal x) (Real.log q) ((133 + 7 * |Real.log q|) * roundoff) := by
  have error := Binary64.roundoff_pos
  have small := Binary64.roundoff_lt
  have compared : x < 1 ↔ q < 1 := Binary64.lt_iff_value_lt known Binary64.exactValue?_ofNat_one
  unfold lnNormal
  by_cases below : q < 1
  · have positive : 0 < q := (Binary64.unit_pos _).trans_le normal
    obtain ⟨value, least⟩ := exists_reciprocal known normal below
    have inverse : 2 ^ (-1022 : ℤ) ≤ 1 / q :=
      (zpow_le_one_of_nonpos₀ one_le_two (by norm_num)).trans ((one_le_div positive).mpr below.le)
    obtain ⟨above, close⟩ := Binary64.abs_log_rounded_sub_le inverse
    rw [one_div, Rat.cast_inv, Real.log_inv, ← one_div] at close
    have negative : Real.log q ≤ 0 := Real.log_nonpos (by exact_mod_cast positive.le) (by exact_mod_cast below.le)
    have upper := (abs_le.mp close).2
    rw [if_pos (compared.mpr below), ← neg_neg (Real.log q), abs_neg, abs_of_nonneg (neg_nonneg.mpr negative)]
    refine ((near_lnFromOne value least).trans close).neg.mono ?_
    nlinarith
  · have least : 1 ≤ q := not_lt.mp below
    have sign : 0 ≤ Real.log q := Real.log_nonneg (by exact_mod_cast least)
    rw [if_neg (compared.not.mpr below), abs_of_nonneg sign]
    exact (near_lnFromOne known least).mono (by nlinarith)

theorem log_subnormal_bounds (least : 2 ^ (-1074 : ℤ) ≤ q) (subnormal : q < 2 ^ (-1022 : ℤ)) :
    -745 ≤ Real.log q ∧ Real.log q ≤ -708 := by
  have positive : 0 < q := (Binary64.unit_pos _).trans_le least
  have lower : Real.log ((2 ^ (-1074 : ℤ) : ℚ) : ℝ) ≤ Real.log q :=
    Real.log_le_log (by exact_mod_cast Binary64.unit_pos _) (by exact_mod_cast least)
  have upper : Real.log q ≤ Real.log ((2 ^ (-1022 : ℤ) : ℚ) : ℝ) :=
    Real.log_le_log (by exact_mod_cast positive) (by exact_mod_cast subnormal.le)
  rw [Rat.cast_zpow, Rat.cast_ofNat, Real.log_zpow] at lower upper
  push_cast at lower upper
  constructor <;> linarith [Real.log_two_gt_d9, Real.log_two_lt_d9]

theorem near_lnPositive_of_subnormal (known : exactValue? x = some q) (positive : 0 < q)
    (subnormal : q < 2 ^ (-1022 : ℤ)) : Near (lnPositive x) (Real.log q) ((140 + 9 * |Real.log q|) * roundoff) := by
  have error := Binary64.roundoff_pos
  have small := Binary64.roundoff_lt
  have least := (Binary64.representable_of_exactValue? known).twoPow_le positive
  obtain ⟨lower, upper⟩ := log_subnormal_bounds least subnormal
  have normal : 2 ^ (-1022 : ℤ) ≤ q * 2 ^ 52 := by
    calc (2 : ℚ) ^ (-1022 : ℤ) = 2 ^ (-1074 : ℤ) * 2 ^ (52 : ℤ) := by rw [← zpow_add₀ two_ne_zero]; rfl
      _ ≤ q * 2 ^ (52 : ℤ) := mul_le_mul_of_nonneg_right least (Binary64.unit_pos _).le
  have small' : q < 2 ^ (-1021 : ℤ) := subnormal.trans (zpow_lt_zpow_right₀ one_lt_two (by decide))
  obtain ⟨m, passes, y, loops, value, above, below⟩ := exists_loops_double known normal small'
  have count : (m : ℝ) ≤ 52 := by exact_mod_cast passes
  have split : Real.log (q * 2 ^ m : ℚ) - m * Real.log 2 = Real.log q := by
    push_cast
    rw [Real.log_mul (by exact_mod_cast positive.ne') (by positivity), Real.log_pow]
    ring
  have bounds : |Real.log (q * 2 ^ m : ℚ)| ≤ 745 := by
    have two := Real.log_two_lt_d9
    rw [abs_le]
    constructor <;> nlinarith [Real.log_two_gt_d9, Nat.cast_nonneg (α := ℝ) m]
  have magnitude : |Real.log q| = -Real.log q := abs_of_neg (by linarith)
  rw [lnPositive_of_loops loops (by unfold maxScalings; omega) ((lt_leastNormal_iff known).mpr subnormal), ← split]
  refine ((near_lnNormal value above).sub (near_steps (by omega)) (M := 750)
    (Binary64.inRange_of_le (by norm_num) (by norm_num)) ?_).mono ?_
  · rw [split, magnitude]
    nlinarith
  · rw [split, magnitude]
    nlinarith

theorem near_lnPositive (known : exactValue? x = some q) (positive : 0 < q) :
    Near (lnPositive x) (Real.log q) ((140 + 9 * |Real.log q|) * roundoff) := by
  have error := Binary64.roundoff_pos
  have small := Binary64.roundoff_lt
  by_cases subnormal : q < 2 ^ (-1022 : ℤ)
  · exact near_lnPositive_of_subnormal known positive subnormal
  · rw [lnPositive, if_neg ((lt_leastNormal_iff known).not.mpr subnormal)]
    refine (near_lnNormal known (not_lt.mp subnormal)).mono ?_
    nlinarith [abs_nonneg (Real.log q)]

end Calculator.Elementary
