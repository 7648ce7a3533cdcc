import Calculator.Proofs.Elementary.NewtonStep

namespace Calculator.Elementary

open Binary64 (exactValue? toInt? rounded natPow Near LogNear roundoff Representable)

variable {x a y z e : Float} {q b : ℚ} {ρ δ : ℝ} {n : ℕ}

section Degrees

theorem next_above_one (representable : Representable b) (above : 1 < b) : 1 + 1 / 2 ^ 52 ≤ b := by
  obtain ⟨-, m, e, short, -, rfl⟩ := Binary64.representable_iff.mp representable
  rcases le_or_gt (-52) e with coarse | fine
  · obtain ⟨k, multiple⟩ := Binary64.multiple_div_unit m coarse
    have digit : (2 : ℚ) ^ (-52 : ℤ) = 1 / 2 ^ 52 := by norm_num
    rw [digit, div_eq_iff (by positivity)] at multiple
    rw [multiple] at above ⊢
    have long : (2 ^ 52 : ℚ) < k := by linarith
    have long' : 2 ^ 52 + 1 ≤ k := by exact_mod_cast long
    have long'' : (2 ^ 52 + 1 : ℚ) ≤ k := by exact_mod_cast long'
    linarith
  · have power : (2 : ℚ) ^ e ≤ 2 ^ (-53 : ℤ) := zpow_le_zpow_right₀ one_le_two (by omega)
    have mantissa : (m : ℚ) ≤ 2 ^ 53 := by exact_mod_cast (le_abs_self m).trans short.le
    have unit := Binary64.unit_pos e
    have one : (2 : ℚ) ^ 53 * 2 ^ (-53 : ℤ) = 1 := by norm_num
    nlinarith

theorem exists_reciprocal_degree (degree : exactValue? y = some b) (above : 1 < b) :
    ∃ r, exactValue? (1 / y) = some r ∧ 0 < r ∧ r < 1 := by
  have representable := Binary64.representable_of_exactValue? degree
  have positive : 0 < b := one_pos.trans above
  have small : |1 / b| ≤ 2 ^ (0 : ℤ) := by
    rw [abs_of_pos (one_div_pos.mpr positive), zpow_zero, div_le_one positive]
    exact above.le
  refine ⟨rounded (1 / b), ?_, ?_, ?_⟩
  · rw [Binary64.exactValue?_div Binary64.exactValue?_ofNat_one degree positive.ne',
      Binary64.nearestReal?_of_abs_le small (by decide) (by decide)]
  · exact (Binary64.zero_lt_rounded_inv_iff (Binary64.representable_iff.mp representable).1 positive.ne').mpr positive
  · have next := next_above_one representable above
    have last : rounded ((2 ^ 53 - 1 : ℤ) * 2 ^ (-53 : ℤ)) = (2 ^ 53 - 1 : ℤ) * 2 ^ (-53 : ℤ) :=
      Binary64.rounded_of_short (by norm_num) (by norm_num)
    have below : 1 / b ≤ (2 ^ 53 - 1 : ℤ) * 2 ^ (-53 : ℤ) := by
      rw [div_le_iff₀ positive]
      norm_num at next ⊢
      linarith
    calc rounded (1 / b) ≤ rounded ((2 ^ 53 - 1 : ℤ) * 2 ^ (-53 : ℤ)) := Binary64.rounded_mono below
      _ < 1 := by
        rw [last]
        norm_num

theorem near_reciprocal (degree : exactValue? y = some b) (above : 1 < b) (most : b ≤ 2 ^ 80) :
    Near (1 / y) (1 / b) (roundoff * |1 / (b : ℝ)|) := by
  have positive : 0 < b := one_pos.trans above
  have above' : (1 : ℝ) < b := by exact_mod_cast above
  have most' : (b : ℝ) ≤ 2 ^ 80 := by exact_mod_cast most
  have quotient := Binary64.exactValue?_div Binary64.exactValue?_ofNat_one degree positive.ne'
  have rounds := Binary64.near_of_nearest (v := 1 / b) (δ := 0) (M := |1 / (b : ℝ)|) quotient (by push_cast; simp)
    (add_zero _).le (Binary64.inRange_of_le ?_ ?_)
  · rwa [zero_add] at rounds
  · rw [abs_of_pos (by positivity)]
    exact one_div_le_one_div_of_le (by positivity) (most'.trans (by norm_num))
  · rw [abs_of_pos (by positivity), div_le_iff₀ (by positivity)]
    linarith

theorem toInt?_of_fraction {r : ℚ} (known : exactValue? x = some r) (positive : 0 < r) (below : r < 1) :
    toInt? x = none := by
  cases whole : toInt? x with
  | none => rfl
  | some n =>
    obtain rfl := Option.some.inj (known.symm.trans (Binary64.toInt?_eq_some_iff.mp whole))
    have first : 0 < n := by exact_mod_cast positive
    have second : n < 1 := by exact_mod_cast below
    omega

end Degrees

section Roots

theorem estimate_of_whole_degree (positive : 0 < q) (logarithm : |Real.log q| ≤ 746) (several : 2 ≤ n)
    (few : n ≤ 2 ^ 37) (normal : -650 ≤ (n - 1) * (Real.log q / n))
    (close : LogNear e (Real.log q / n) ((500 + 18 * |Real.log q / n|) * roundoff)) :
    Estimate q n (Real.log q / n) ((500 + 18 * |Real.log q / n|) * roundoff) e := by
  have count : (2 : ℝ) ≤ n := by exact_mod_cast several
  have many : (n : ℝ) ≤ 2 ^ 37 := by exact_mod_cast few
  have size : n * |Real.log q / n| = |Real.log q| := by
    rw [abs_div, Nat.abs_cast, mul_div_cancel₀ _ (by positivity)]
  have whole : n * (Real.log q / n) = Real.log q := mul_div_cancel₀ _ (by positivity)
  refine ⟨positive, whole.symm, several, few.trans (by norm_num), ?_, normal, close, ?_⟩
  · nlinarith [abs_nonneg (Real.log q / n)]
  · nlinarith [Binary64.roundoff_pos, Binary64.roundoff_eq]

variable (known : exactValue? a = some q) (positive : 0 < q) (degree : exactValue? y = some b) (above : 1 < b)
include known positive degree above

theorem power_reciprocal : power a (1 / y) = realPower a (1 / y) := by
  obtain ⟨r, reciprocal, least, most⟩ := exists_reciprocal_degree degree above
  rw [power_of_fraction (toInt?_of_fraction reciprocal least most),
    if_neg ((Binary64.lt_zero_iff known).not.mpr positive.le.not_gt)]

theorem logNear_estimate (few : b ≤ 2 ^ 80) (least : -1 ≤ Real.log q) (result : power a (1 / y) = .ok e) :
    LogNear e (Real.log q / b) ((500 + 18 * |Real.log q / b|) * roundoff) := by
  have error := Binary64.roundoff_pos
  have above' : (1 : ℝ) < b := by exact_mod_cast above
  have few' : (b : ℝ) ≤ 2 ^ 80 := by exact_mod_cast few
  have reciprocal : |1 / (b : ℝ)| = 1 / b := abs_of_pos (by positivity)
  have most : 1 / (b : ℝ) ≤ 1 := by
    rw [div_le_one (by linarith)]
    exact above'.le
  have same : 1 / (b : ℝ) * Real.log q = Real.log q / b := by ring
  rw [power_reciprocal known positive degree above] at result
  have close := logNear_realPower known positive (near_reciprocal degree above few) ?_ ?_ ?_ result
  · rw [same, reciprocal] at close
    exact close.mono (by nlinarith)
  · rw [reciprocal]
    exact one_div_le_one_div_of_le (by positivity) (few'.trans (by norm_num))
  · rw [reciprocal]
    linarith
  · rw [same, le_div_iff₀ (by linarith)]
    linarith

theorem near_root (few : b ≤ 2 ^ 37) (least : -1 ≤ Real.log q) (result : power a (1 / y) = .ok e) :
    Near (newtonStep e a y) (Real.exp (Real.log q / b))
      ((1200 + 41 * |Real.log q / b|) * roundoff * Real.exp (Real.log q / b)) := by
  have error := Binary64.roundoff_pos
  have tiny := Binary64.roundoff_lt
  have logarithm := abs_log_le known positive
  have close := logNear_estimate known positive degree above (few.trans (by norm_num)) least result
  have root := (Real.exp_pos (Real.log q / b)).le
  by_cases whole : ∃ k : ℤ, b = k
  · obtain ⟨k, rfl⟩ := whole
    obtain ⟨n, rfl⟩ := Int.eq_ofNat_of_zero_le (by exact_mod_cast (zero_lt_one.trans above).le : 0 ≤ k)
    rw [Int.cast_natCast] at degree above few close root ⊢
    rw [Rat.cast_natCast] at close root ⊢
    have several : 2 ≤ n := by exact_mod_cast above
    have count : (2 : ℝ) ≤ n := by exact_mod_cast several
    have part : (n - 1) / (n : ℝ) ≤ 1 := by
      rw [div_le_one (by linarith)]
      linarith
    have normal : -650 ≤ (n - 1) * (Real.log q / n) :=
      calc (-650 : ℝ) ≤ -1 := by norm_num
        _ ≤ (n - 1) / (n : ℝ) * -1 := by linarith
        _ ≤ (n - 1) / (n : ℝ) * Real.log q := mul_le_mul_of_nonneg_left least (div_nonneg (by linarith) (by linarith))
        _ = (n - 1) * (Real.log q / n) := by ring
    have estimate := estimate_of_whole_degree positive logarithm several (by exact_mod_cast few) normal close
    refine (near_newtonStep estimate degree known).mono (mul_le_mul_of_nonneg_right ?_ root)
    nlinarith [abs_nonneg (Real.log q / n)]
  · have above' : (1 : ℝ) < b := by exact_mod_cast above
    have quotient : |Real.log q / b| ≤ 746 := by
      rw [abs_div]
      exact (div_le_self (abs_nonneg _) (above'.le.trans (le_abs_self _))).trans logarithm
    have size := abs_nonneg (Real.log q / b)
    have square : ((500 + 18 * |Real.log q / b|) * roundoff) ^ 2 ≤ (500 + 18 * |Real.log q / b|) * roundoff * (1 / 10) := by
      rw [sq]
      exact mul_le_mul_of_nonneg_left (by nlinarith) (by positivity)
    rw [newtonStep_of_fraction degree whole]
    refine (close.near (by nlinarith)).mono (mul_le_mul_of_nonneg_right ?_ root)
    nlinarith

end Roots

section SquareRoots

theorem exactValue?_half_exponent : exactValue? 0.5 = some (1 / 2) := by decide +kernel

theorem near_squareRoot (known : exactValue? a = some q) (positive : 0 < q) (result : power a 0.5 = .ok e) :
    Near (newtonStep e a 2) (Real.exp (Real.log q / 2))
      ((1200 + 41 * |Real.log q / 2|) * roundoff * Real.exp (Real.log q / 2)) := by
  have error := Binary64.roundoff_pos
  have logarithm := abs_log_le known positive
  obtain ⟨lower, upper⟩ := abs_le.mp logarithm
  have half : |((1 / 2 : ℚ) : ℝ)| = 1 / 2 := by norm_num
  have same : ((1 / 2 : ℚ) : ℝ) * Real.log q = Real.log q / 2 := by
    push_cast
    ring
  rw [power_of_fraction (toInt?_of_fraction exactValue?_half_exponent (by norm_num) (by norm_num)),
    if_neg ((Binary64.lt_zero_iff known).not.mpr positive.le.not_gt)] at result
  have close := logNear_realPower known positive
    ((Binary64.near_of_exactValue? exactValue?_half_exponent).mono (by positivity)) (by rw [half]; norm_num)
    (by rw [half]; norm_num) (by rw [same]; linarith) result
  rw [same, half] at close
  have two : exactValue? 2 = some ((2 : ℕ) : ℚ) := Binary64.exactValue?_two
  have estimate := estimate_of_whole_degree (n := 2) positive logarithm le_rfl (by norm_num)
    (by push_cast; linarith) (by push_cast; exact close.mono (by nlinarith))
  have near := near_newtonStep estimate two known
  push_cast at near
  refine near.mono (mul_le_mul_of_nonneg_right ?_ (Real.exp_pos _).le)
  nlinarith [abs_nonneg (Real.log q / 2)]

end SquareRoots

end Calculator.Elementary
