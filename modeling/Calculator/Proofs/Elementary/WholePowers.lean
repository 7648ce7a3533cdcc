import Calculator.Proofs.Binary64.Signs
import Calculator.Proofs.Elementary.PowerAccuracy

namespace Calculator.Elementary

open Binary64 (exactValue? toInt? rounded natPow sign? Near LogNear roundoff)

variable {x y z : Float} {q b : ℚ}

section Overflow

theorem exp_of_not_finite (signed : sign? x = none ∨ sign? x = some .positive) (past : ¬ x.isFinite = true) :
    exp x = .error .overflow := by
  rcases signed with noNumber | positive
  · rw [exp, Binary64.sign?_eq_none_iff.mp noNumber, Bool.true_or, if_pos rfl]
  · have great : x > maxExponent := by
      rw [gt_iff_lt, Binary64.lt_iff, Binary64.unpack_of_sign? positive past]
      rfl
    rw [exp, if_pos]
    rw [decide_eq_true great, Bool.or_true]

theorem exp_of_great (known : exactValue? x = some q) (great : 1000 ≤ q) : exp x = .error .overflow := by
  cases result : exp x with
  | error e =>
    rcases finiteOrOverflow_exp x with failed | ⟨w, success, -⟩
    · exact result.symm.trans failed
    · rw [result] at success
      cases success
  | ok z =>
    have tiny := Binary64.roundoff_lt
    have great' : (1000 : ℝ) ≤ q := by exact_mod_cast great
    obtain ⟨p, value, positive, close⟩ := logNear_exp known (by linarith) result
    have upper := (abs_le.mp (abs_log_le value positive)).2
    have lower := (abs_le.mp close).1
    rw [abs_of_pos (by linarith : (0 : ℝ) < q)] at lower
    nlinarith

theorem log_two_le (above : 2 ≤ q) : 69 / 100 ≤ Real.log q := by
  have above' : (2 : ℝ) ≤ q := by exact_mod_cast above
  linarith [Real.log_le_log two_pos above', Real.log_two_gt_d9]

/-- The logarithm of the base is a half or more, and so the product with a great exponent is great or infinite. -/
theorem exponent_le_of_realPower (base : exactValue? x = some q) (above : 2 ≤ q) (exponent : exactValue? y = some b)
    (result : realPower x y = .ok z) : b ≤ 2 ^ 20 := by
  by_contra great
  have positive : 0 < q := two_pos.trans_le above
  have error := Binary64.roundoff_pos
  have tiny := Binary64.roundoff_lt
  have large := log_two_le above
  have bound := abs_log_le base positive
  obtain ⟨l, logarithm, close⟩ := near_lnPositive base positive
  have half : 1 / 2 ≤ l := by
    have lower := (abs_le.mp close).1
    have small : (140 + 9 * |Real.log q|) * roundoff ≤ 7000 * roundoff :=
      mul_le_mul_of_nonneg_right (by linarith) error.le
    rw [← Rat.cast_le (K := ℝ)]
    push_cast
    linarith
  have value := Binary64.exactValue?_mul exponent logarithm
  rw [realPower_of_pos base positive] at result
  suffices failed : exp (y * lnPositive x) = .error .overflow by
    rw [failed] at result
    cases result
  by_cases finite : (y * lnPositive x).isFinite = true
  · obtain ⟨p, known⟩ := Binary64.isFinite_iff_exactValue?.mp finite
    refine exp_of_great known ?_
    rw [Binary64.eq_rounded (value.symm.trans known)]
    have product : (2 : ℚ) ^ (19 : ℤ) ≤ b * l := by
      rw [not_le] at great
      norm_num at great ⊢
      nlinarith
    calc (1000 : ℚ) ≤ 2 ^ (19 : ℤ) := by norm_num
      _ = rounded (2 ^ (19 : ℤ)) := (Binary64.rounded_twoPow (by norm_num)).symm
      _ ≤ rounded (b * l) := Binary64.rounded_mono product
  · refine exp_of_not_finite ?_ finite
    exact Binary64.sign?_mul (Binary64.sign?_of_pos exponent (by linarith)) (Binary64.sign?_of_pos logarithm (by linarith))

end Overflow

theorem exists_power_of_unit (base : exactValue? x = some q) (unit : q = 0 ∨ q = 1) (exponent : exactValue? y = some b)
    (positive : 0 < b) : ∃ w, power x y = .ok w ∧ exactValue? w = some q := by
  have nonnegative : 0 ≤ q := by rcases unit with rfl | rfl <;> norm_num
  cases whole : toInt? y with
  | none =>
    rw [power_of_fraction whole, if_neg ((Binary64.lt_zero_iff base).not.mpr nonnegative.not_gt)]
    exact realPower_of_unit base unit exponent positive
  | some k =>
    by_cases few : k.natAbs ≤ maxIntegerExponent
    · obtain rfl := Option.some.inj (exponent.symm.trans (Binary64.toInt?_eq_some_iff.mp whole))
      obtain ⟨n, rfl⟩ := Int.eq_ofNat_of_zero_le (by exact_mod_cast positive.le : 0 ≤ k)
      have same : q ^ n = q := by
        have nonzero : n ≠ 0 := by
          rintro rfl
          exact lt_irrefl _ positive
        rcases unit with rfl | rfl
        · exact zero_pow nonzero
        · exact one_pow n
      have power := power_exact (z := x) (n := n) base (by exact_mod_cast exponent) few (by rwa [same])
      rwa [same] at power
    · have magnitude := Binary64.exactValue?_abs base
      rw [abs_of_nonneg nonnegative] at magnitude
      rw [power_of_great_exponent whole few]
      exact realPower_of_unit magnitude unit exponent positive

section Accuracy

variable (base : exactValue? x = some q) (exponent : exactValue? y = some b)

theorem logNear_natPow_of_one_le {n : ℕ} (base : exactValue? x = some q) (above : 1 ≤ q)
    (finite : (natPow x n).isFinite = true) (few : n ≤ maxIntegerExponent) :
    LogNear (natPow x n) (n * Real.log q) (n * (2 * roundoff)) := by
  have error := Binary64.roundoff_pos
  have above' : (1 : ℝ) ≤ q := by exact_mod_cast above
  have few' : (n : ℝ) ≤ 2 ^ 53 := by
    unfold maxIntegerExponent at few
    exact_mod_cast (by omega : n ≤ 2 ^ 53)
  have power := logNear_natPow (g := -(2 * roundoff))
    (Binary64.logNear_of_exactValue? base (one_pos.trans_le above)) finite (by linarith [Real.log_nonneg above'])
    (by linarith) (by rw [Binary64.roundoff_eq]; linarith)
  rwa [zero_add] at power

include base exponent in
theorem logNear_realPower_of_two_le (above : 2 ≤ q) (least : 1 ≤ b) (result : realPower x y = .ok z) :
    LogNear z (b * Real.log q) (b * (492 + 18 * Real.log q) * roundoff) := by
  have error := Binary64.roundoff_pos
  have few : (b : ℝ) ≤ 2 ^ 20 := by exact_mod_cast exponent_le_of_realPower base above exponent result
  have least' : (1 : ℝ) ≤ b := by exact_mod_cast least
  have size : |(b : ℝ)| = b := abs_of_pos (by linarith)
  have large := log_two_le above
  have product : 0 ≤ b * Real.log q := mul_nonneg (by linarith) (by linarith)
  have near : Near y b (roundoff * |(b : ℝ)|) :=
    (Binary64.near_of_exactValue? exponent).mono (mul_nonneg error.le (abs_nonneg _))
  have close := logNear_realPower base (two_pos.trans_le above) near (by rw [size]; linarith) (by rwa [size])
    (by linarith) result
  rw [abs_of_nonneg product, size] at close
  exact close.mono (by nlinarith)

structure PowerNear (q b p : ℚ) : Prop where
  one_le : 1 ≤ p
  near : |Real.log p - b * Real.log q| ≤ b * (492 + 18 * Real.log q) * roundoff

theorem LogNear.powerNear (above : 2 ≤ q) (least : 1 ≤ b)
    (close : LogNear z (b * Real.log q) (b * (492 + 18 * Real.log q) * roundoff)) :
    ∃ p, exactValue? z = some p ∧ PowerNear q b p := by
  have tiny := Binary64.roundoff_lt
  have large := log_two_le above
  have least' : (1 : ℝ) ≤ b := by exact_mod_cast least
  obtain ⟨p, known, positive, near⟩ := close
  refine ⟨p, known, ?_, near⟩
  have lower := (abs_le.mp near).1
  have small : b * ((492 + 18 * Real.log q) * roundoff) ≤ b * Real.log q :=
    mul_le_mul_of_nonneg_left (by nlinarith) (by linarith)
  have nonnegative : 0 ≤ Real.log p := by linarith
  have above' := (Real.log_nonneg_iff (by exact_mod_cast positive)).mp nonnegative
  exact_mod_cast above'

include base exponent

theorem powerNear_of_two_le (above : 2 ≤ q) (least : 1 ≤ b) (result : power x y = .ok z) :
    ∃ p, exactValue? z = some p ∧ PowerNear q b p := by
  have error := Binary64.roundoff_pos
  have large := log_two_le above
  have least' : (1 : ℝ) ≤ b := by exact_mod_cast least
  refine LogNear.powerNear above least ?_
  cases whole : toInt? y with
  | none =>
    rw [power_of_fraction whole, if_neg ((Binary64.lt_zero_iff base).not.mpr (by linarith))] at result
    exact logNear_realPower_of_two_le base exponent above least result
  | some k =>
    obtain rfl := Option.some.inj (exponent.symm.trans (Binary64.toInt?_eq_some_iff.mp whole))
    obtain ⟨n, rfl⟩ := Int.eq_ofNat_of_zero_le (by exact_mod_cast (one_pos.trans_le least).le : 0 ≤ k)
    by_cases few : n ≤ maxIntegerExponent
    · rw [power_of_natural whole few, finite] at result
      split at result
      · rename_i inRange
        cases result
        refine (logNear_natPow_of_one_le base (one_le_two.trans above) inRange few).mono ?_
        rw [Rat.cast_intCast, Int.cast_natCast, ← mul_assoc]
        exact mul_le_mul_of_nonneg_right (mul_le_mul_of_nonneg_left (by linarith) (Nat.cast_nonneg n)) error.le
      · cases result
    · rw [power_of_great_exponent whole few] at result
      refine logNear_realPower_of_two_le ?_ exponent above least result
      have magnitude := Binary64.exactValue?_abs base
      rwa [abs_of_pos (by linarith)] at magnitude

theorem powerNear_of_whole {m : ℕ} (same : q = m) (positive : 1 ≤ m) (least : 1 ≤ b) (result : power x y = .ok z) :
    ∃ p, exactValue? z = some p ∧ PowerNear q b p := by
  rcases positive.eq_or_lt with rfl | several
  · obtain rfl : q = 1 := by rw [same, Nat.cast_one]
    obtain ⟨w, success, known⟩ := exists_power_of_unit base (.inr rfl) exponent (one_pos.trans_le least)
    obtain rfl := Except.ok.inj (result.symm.trans success)
    have least' : (1 : ℝ) ≤ b := by exact_mod_cast least
    have error := Binary64.roundoff_pos
    refine ⟨1, known, le_rfl, ?_⟩
    rw [Rat.cast_one, Real.log_one, mul_zero, sub_zero, abs_zero]
    positivity
  · refine powerNear_of_two_le base exponent ?_ least result
    rw [same]
    exact_mod_cast several

theorem base_eq_one_of_great {m : ℕ} (same : q = m) (positive : 1 ≤ m) (great : 2 ^ 37 < b)
    (result : power x y = .ok z) : q = 1 := by
  rcases positive.eq_or_lt with rfl | several
  · rw [same, Nat.cast_one]
  · have above : 2 ≤ q := by
      rw [same]
      exact_mod_cast several
    have tiny := Binary64.roundoff_lt
    have large := log_two_le above
    have great' : (2 : ℝ) ^ 37 < b := by exact_mod_cast great
    obtain ⟨p, known, one_le, near⟩ := powerNear_of_two_le base exponent above (by linarith) result
    have upper := (abs_le.mp (abs_log_le known (one_pos.trans_le one_le))).2
    have lower := (abs_le.mp near).1
    have small : b * ((492 + 18 * Real.log q) * roundoff) ≤ b * (Real.log q / 2) :=
      mul_le_mul_of_nonneg_left (by nlinarith) (by linarith)
    nlinarith

end Accuracy

end Calculator.Elementary
