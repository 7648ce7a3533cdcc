import Calculator.Elementary.Root
import Calculator.Proofs.Binary64.Remainder
import Calculator.Proofs.Elementary.PowerAccuracy

namespace Calculator.Elementary

open Binary64 (exactValue? toInt? natPow Near LogNear roundoff InRange)

variable {x a y z : Float} {q : ℚ} {ρ δ : ℝ} {n : ℕ}

theorem newtonStep_cases (x a y : Float) : newtonStep x a y = x ∨
    ∃ lower, power x (y - 1) = .ok lower ∧ newtonStep x a y = ((y - 1) * x + a / lower) / y := by
  unfold newtonStep
  split
  · exact .inl rfl
  · split
    · rename_i lower result
      split
      · exact .inl rfl
      · exact .inr ⟨lower, result, rfl⟩
    · exact .inl rfl

theorem newtonStep_of_fraction {b : ℚ} (degree : exactValue? y = some b) (fraction : ¬ ∃ k : ℤ, b = k) (x a : Float) :
    newtonStep x a y = x := by
  have guard : (x == 0 || y < 2 || !Binary64.hasNoFraction y) = true := by
    rw [Bool.eq_false_iff.mpr ((Binary64.hasNoFraction_iff degree).not.mpr fraction), Bool.not_false, Bool.or_true]
  rw [newtonStep, if_pos guard]

/-- An estimate of a root with a natural degree, of which powers do not leave the range of normal numbers. -/
structure Estimate (q : ℚ) (n : ℕ) (ρ δ : ℝ) (x : Float) : Prop where
  radicand : 0 < q
  root : Real.log q = n * ρ
  several : 2 ≤ n
  few : n ≤ 2 ^ 40
  bounded : |ρ| ≤ 400
  normal : -650 ≤ (n - 1) * ρ
  close : LogNear x ρ δ
  precise : n * (δ + 2 * roundoff) ≤ 1 / 16

theorem Estimate.error_nonneg (estimate : Estimate q n ρ δ x) : 0 ≤ δ := by
  obtain ⟨p, -, -, close⟩ := estimate.close
  exact (abs_nonneg _).trans close

section Step

variable (estimate : Estimate q n ρ δ x) (degree : exactValue? y = some (n : ℚ))
include degree

theorem toInt?_count_sub_one (several : 2 ≤ n) (few : n ≤ 2 ^ 40) : toInt? (y - 1) = some ((n - 1 : ℕ) : ℤ) := by
  have whole : toInt? y = some (n : ℤ) := Binary64.toInt?_eq_some_iff.mpr (by exact_mod_cast degree)
  have one : toInt? 1 = some 1 := by rfl
  rw [Binary64.toInt?_sub whole one (by rw [abs_le]; omega), Nat.cast_sub (by omega), Nat.cast_one]

include estimate

theorem logNear_lower (result : power x (y - 1) = .ok z) :
    LogNear z ((n - 1) * ρ) ((n - 1) * (δ + 2 * roundoff)) := by
  have error := Binary64.roundoff_pos
  have several := estimate.several
  have few := estimate.few
  have bounded := abs_le.mp estimate.bounded
  have count : (2 : ℝ) ≤ n := by exact_mod_cast several
  have precise := estimate.precise
  have small := estimate.error_nonneg
  rw [power_of_natural (toInt?_count_sub_one degree several few) (by unfold maxIntegerExponent; omega), finite] at result
  split at result
  · rename_i inRange
    cases result
    have cast : ((n - 1 : ℕ) : ℝ) = n - 1 := by rw [Nat.cast_sub (by omega), Nat.cast_one]
    rw [← cast]
    have normal : -650 ≤ (n - 1) * min ρ 0 := by
      rcases min_choice ρ 0 with left | right
      · rw [left]
        exact estimate.normal
      · rw [right]
        linarith
    refine logNear_natPow (g := min ρ 0 - δ - 2 * roundoff) estimate.close inRange ?_ ?_ ?_
    · linarith [min_le_left ρ 0]
    · linarith [min_le_right ρ 0]
    · rw [cast]
      nlinarith
  · cases result

theorem near_weighted : Near ((y - 1) * x) ((n - 1) * Real.exp ρ)
    ((n - 1) * (δ + 2 * roundoff + (δ + 2 * roundoff) ^ 2) * Real.exp ρ) := by
  have error := Binary64.roundoff_pos
  have several := estimate.several
  have count : (2 : ℝ) ≤ n := by exact_mod_cast several
  have many : (n : ℝ) ≤ 2 ^ 40 := by exact_mod_cast estimate.few
  have bounded := abs_le.mp estimate.bounded
  have small := estimate.error_nonneg
  have precise := estimate.precise
  have weight := Binary64.toInt?_eq_some_iff.mp (toInt?_count_sub_one degree several estimate.few)
  have cast : ((((n - 1 : ℕ) : ℤ) : ℚ) : ℝ) = n - 1 := by
    push_cast [Nat.cast_sub (by omega : 1 ≤ n)]
    ring
  have factor := Binary64.logNear_of_exactValue? weight (by exact_mod_cast (by omega : 0 < n - 1))
  rw [cast] at factor
  have lower : 0 ≤ Real.log (n - 1) := Real.log_nonneg (by linarith)
  have upper : Real.log (n - 1) ≤ 40 := by
    have power := Real.log_le_log (by linarith) (by linarith : (n - 1 : ℝ) ≤ 2 ^ 40)
    rw [Real.log_pow] at power
    push_cast at power
    linarith [Real.log_two_lt_d9]
  have product := factor.mul estimate.close (factor.isFinite_mul estimate.close (by nlinarith)) (by nlinarith)
  have near := product.near (by nlinarith)
  rw [Real.exp_add, Real.exp_log (by linarith), zero_add] at near
  exact near.mono (by linarith)

theorem near_balanced (radicand : exactValue? a = some q) (result : power x (y - 1) = .ok z) :
    Near (a / z) (Real.exp ρ) (((n - 1) * (δ + 2 * roundoff) + 2 * roundoff +
      ((n - 1) * (δ + 2 * roundoff) + 2 * roundoff) ^ 2) * Real.exp ρ) := by
  have error := Binary64.roundoff_pos
  have tiny := Binary64.roundoff_lt
  have bounded := abs_le.mp estimate.bounded
  have small := estimate.error_nonneg
  have precise := estimate.precise
  have dividend := Binary64.logNear_of_exactValue? radicand estimate.radicand
  have divisor := logNear_lower estimate degree result
  have root : Real.log q - (n - 1) * ρ = ρ := by
    rw [estimate.root]
    ring
  have quotient := dividend.div divisor (dividend.isFinite_div divisor (by rw [root]; nlinarith))
    (by rw [root]; nlinarith)
  rw [root, zero_add] at quotient
  exact quotient.near (by nlinarith)

omit degree in
/-- The estimate counts `n` - 1 times and its power once, with `n` - 1 times the error. -/
theorem mean_error_le : (n - 1) * (δ + 2 * roundoff + (δ + 2 * roundoff) ^ 2) +
    ((n - 1) * (δ + 2 * roundoff) + 2 * roundoff + ((n - 1) * (δ + 2 * roundoff) + 2 * roundoff) ^ 2) ≤
      n * (21 / 10 * δ + 53 / 10 * roundoff) := by
  have error := Binary64.roundoff_pos
  have tiny := Binary64.roundoff_lt
  have count : (2 : ℝ) ≤ n := by exact_mod_cast estimate.several
  have small := estimate.error_nonneg
  have precise := estimate.precise
  generalize single : δ + 2 * roundoff = e at precise ⊢
  have least : 0 ≤ e := by linarith
  have most : e ≤ 1 / 32 := by nlinarith
  generalize several : (n - 1) * e = s
  have sum : 0 ≤ s := by
    rw [← several]
    exact mul_nonneg (by linarith) least
  have sum' : s ≤ 1 / 16 := by nlinarith
  have squares : (n - 1) * (e + e ^ 2) ≤ s + s * (1 / 32) := by nlinarith
  have squares' : (s + 2 * roundoff) ^ 2 ≤ (s + 2 * roundoff) * (1 / 15) := by nlinarith
  nlinarith

omit degree in
theorem inRange_root (c : ℝ) (least : 1 ≤ c) (most : c ≤ 2 ^ 42) : InRange (c * Real.exp ρ) := by
  obtain ⟨lower, upper⟩ := abs_le.mp estimate.bounded
  have positive := Real.exp_pos ρ
  refine Binary64.inRange_of_exp_le ?_ ?_
  · exact (Real.exp_le_exp.mpr (by linarith)).trans (le_mul_of_one_le_left positive.le least)
  · have power : c ≤ Real.exp 300 := by
      rw [← Real.log_le_iff_le_exp (by linarith)]
      have logarithm := Real.log_le_log (by linarith) most
      rw [Real.log_pow] at logarithm
      push_cast at logarithm
      linarith [Real.log_two_lt_d9]
    calc c * Real.exp ρ ≤ Real.exp 300 * Real.exp 400 :=
          mul_le_mul power (Real.exp_le_exp.mpr upper) positive.le (Real.exp_pos _).le
      _ = Real.exp 700 := by
          rw [← Real.exp_add]
          norm_num

theorem near_corrected (radicand : exactValue? a = some q) (result : power x (y - 1) = .ok z) :
    Near (((y - 1) * x + a / z) / y) (Real.exp ρ) ((9 / 4 * δ + 10 * roundoff) * Real.exp ρ) := by
  have error := Binary64.roundoff_pos
  have tiny := Binary64.roundoff_lt
  have count : (2 : ℝ) ≤ n := by exact_mod_cast estimate.several
  have many : (n : ℝ) ≤ 2 ^ 40 := by exact_mod_cast estimate.few
  have small := estimate.error_nonneg
  have positive := Real.exp_pos ρ
  have mean := mul_le_mul_of_nonneg_right (mean_error_le estimate) positive.le
  have errors : 21 / 10 * δ + 73 / 10 * roundoff ≤ 1 / 2 := by nlinarith [estimate.precise]
  have errors' : (21 / 10 * δ + 53 / 10 * roundoff) * (n * Real.exp ρ) ≤ 1 * (n * Real.exp ρ) :=
    mul_le_mul_of_nonneg_right (by linarith) (by positivity)
  have whole : (n - 1) * Real.exp ρ + Real.exp ρ = n * Real.exp ρ := by ring
  have sum := (near_weighted estimate degree).add (near_balanced estimate degree radicand result)
    (M := 2 * n * Real.exp ρ) (inRange_root estimate _ (by linarith) (by linarith))
    (by rw [whole, abs_of_nonneg (by positivity)]; linarith)
  rw [whole] at sum
  have quotient := (sum.mono (ε := n * ((21 / 10 * δ + 73 / 10 * roundoff) * Real.exp ρ)) (by linarith)).div_natCast
    (M := 2 * Real.exp ρ) (inRange_root estimate _ (by norm_num) (by norm_num)) degree (by linarith [estimate.several])
    (by rw [abs_of_pos positive]; nlinarith)
  exact quotient.mono (by nlinarith)

theorem near_newtonStep (radicand : exactValue? a = some q) :
    Near (newtonStep x a y) (Real.exp ρ) ((9 / 4 * δ + 10 * roundoff) * Real.exp ρ) := by
  have error := Binary64.roundoff_pos
  have small := estimate.error_nonneg
  have count : (2 : ℝ) ≤ n := by exact_mod_cast estimate.several
  have precise : δ ≤ 1 / 32 := by nlinarith [estimate.precise]
  rcases newtonStep_cases x a y with kept | ⟨lower, result, corrected⟩
  · rw [kept]
    refine (estimate.close.near (by linarith)).mono (mul_le_mul_of_nonneg_right ?_ (Real.exp_pos ρ).le)
    nlinarith
  · rw [corrected]
    exact near_corrected estimate degree radicand result

end Step

end Calculator.Elementary
