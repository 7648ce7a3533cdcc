import Calculator.Proofs.Binary64.Accuracy
import Calculator.Proofs.Sample.Variance

namespace Calculator

open Binary64 (exactValue? nearestReal? rounded Representable Near InRange roundoff)

variable {x : Float} {q : ℚ} {n : ℕ} {j : ℤ} {c w : ℝ}

namespace Binary64

theorem exactValue?_negativeZero : exactValue? (-0.0) = some 0 := rfl

theorem inRange_multiple (lower : 2 ^ (-900 : ℤ) ≤ w) (upper : w ≤ 2 ^ (900 : ℤ)) (least : 1 / 2 ^ 100 ≤ c)
    (most : c ≤ 2 ^ 100) : InRange (c * w) where
  normal := by
    have power : (1 / 2 ^ 100 : ℝ) = 2 ^ (-100 : ℤ) := by norm_num
    calc (2 : ℝ) ^ (-1022 : ℤ) ≤ 2 ^ (-100 + -900 : ℤ) := zpow_le_zpow_right₀ one_le_two (by norm_num)
      _ = 1 / 2 ^ 100 * 2 ^ (-900 : ℤ) := by rw [zpow_add₀ two_ne_zero, power]
      _ ≤ c * w := mul_le_mul least lower (zpow_pos two_pos _).le (by linarith)
  finite := by
    have power : (2 : ℝ) ^ 100 = 2 ^ (100 : ℤ) := by norm_num
    have positive : 0 < w := (zpow_pos two_pos _).trans_le lower
    calc c * w ≤ 2 ^ 100 * 2 ^ (900 : ℤ) := mul_le_mul most upper positive.le (by positivity)
      _ = 2 ^ (100 + 900 : ℤ) := by rw [zpow_add₀ two_ne_zero, power]
      _ ≤ 2 ^ (1023 : ℤ) := zpow_le_zpow_right₀ one_le_two (by norm_num)

end Binary64

namespace Sample

theorem sum_replicate_succ (n : ℕ) (x : Float) : sum (List.replicate (n + 1) x) = sum (List.replicate n x) + x := by
  unfold sum
  rw [List.replicate_succ', List.foldl_append]
  rfl

section Bounds

variable (known : exactValue? x = some q)
include known

theorem sum_replicate_le (nonnegative : 0 ≤ q) (small : q ≤ 2 ^ (j - 53)) (least : -1000 ≤ j) (most : j ≤ 1000) (n : ℕ) :
    ∃ s, exactValue? (sum (List.replicate n x)) = some s ∧ 0 ≤ s ∧ s ≤ 2 ^ j := by
  induction n with
  | zero => exact ⟨0, Binary64.exactValue?_negativeZero, le_rfl, (Binary64.unit_pos j).le⟩
  | succ n ih =>
    obtain ⟨s, total, lower, upper⟩ := ih
    have added := Binary64.exactValue?_add total known
    have double : |s + q| ≤ 2 ^ (j + 1) := by
      have finer : (2 : ℚ) ^ (j - 53) ≤ 2 ^ j := zpow_le_zpow_right₀ one_le_two (by omega)
      rw [abs_of_nonneg (by linarith), zpow_add_one₀ two_ne_zero]
      linarith
    rw [Binary64.nearestReal?_of_abs_le double (by omega) (by omega)] at added
    rw [sum_replicate_succ]
    exact ⟨_, added, Binary64.rounded_nonneg (by linarith), Binary64.rounded_le_twoPow least (by linarith)⟩

theorem exactValue?_sum_replicate (exact : ∀ k ≤ n, Representable (k * q)) :
    exactValue? (sum (List.replicate n x)) = some (n * q) := by
  induction n with
  | zero =>
    rw [Nat.cast_zero, zero_mul]
    exact Binary64.exactValue?_negativeZero
  | succ n ih =>
    have added := Binary64.exactValue?_add (ih fun k few => exact k (by omega)) known
    rw [sum_replicate_succ, added, ← add_one_mul, ← Nat.cast_add_one, exact (n + 1) le_rfl]

omit known in
theorem sum_error_growth (n : ℕ) (few : (n + 1 : ℝ) ≤ 2 ^ 52) :
    3 / 4 * (n + 1 : ℝ) ^ 2 * roundoff + roundoff * ((n + 1) + 1 + 3 / 4 * (n + 1) ^ 2 * roundoff) ≤
      3 / 4 * ((n + 1) + 1) ^ 2 * roundoff := by
  have error := Binary64.roundoff_pos
  suffices share : (n + 1) + 1 + 3 / 4 * (n + 1 : ℝ) ^ 2 * roundoff ≤ 3 / 2 * (n + 1) + 3 / 4 by
    nlinarith [mul_le_mul_of_nonneg_left share error.le]
  rcases Nat.eq_zero_or_pos n with rfl | positive
  · rw [Binary64.roundoff_eq]
    norm_num
  · have several : (1 : ℝ) ≤ n := by exact_mod_cast positive
    have half : (n + 1 : ℝ) * roundoff ≤ 1 / 2 := by
      rw [Binary64.roundoff_eq]
      linarith
    nlinarith [mul_le_mul_of_nonneg_left half (by linarith : (0 : ℝ) ≤ n + 1)]

theorem near_sum_replicate (lower : 2 ^ (-900 : ℤ) ≤ |(q : ℝ)|) (upper : |(q : ℝ)| ≤ 2 ^ (900 : ℤ)) (few : n + 1 ≤ 2 ^ 52) :
    Near (sum (List.replicate (n + 1) x)) ((n + 1) * q) (3 / 4 * (n + 1) ^ 2 * |(q : ℝ)| * roundoff) := by
  have positive : 0 < |(q : ℝ)| := (zpow_pos two_pos _).trans_le lower
  induction n with
  | zero =>
    refine ⟨q, ?_, ?_⟩
    · rw [exactValue?_sum_replicate known (n := 1), Nat.cast_one, one_mul]
      intro k single
      interval_cases k
      · rw [Nat.cast_zero, zero_mul]
        exact Binary64.nearestReal?_zero
      · rw [Nat.cast_one, one_mul]
        exact Binary64.representable_of_exactValue? known
    · rw [Nat.cast_zero, zero_add, one_mul, sub_self, abs_zero, Binary64.roundoff_eq]
      positivity
  | succ n ih =>
    have total := ih (by omega)
    have count : ((n + 1 : ℕ) : ℝ) + 1 ≤ 2 ^ 52 := by exact_mod_cast few
    have growth := sum_error_growth n (by push_cast at count; linarith)
    push_cast at count ⊢
    have first : (1 : ℝ) ≤ n + 1 := by linarith [Nat.cast_nonneg (α := ℝ) n]
    generalize (n + 1 : ℝ) = k at count first total growth ⊢
    have small : 3 / 4 * k ^ 2 * roundoff ≤ k := by
      rw [Binary64.roundoff_eq]
      nlinarith
    have nonnegative : 0 ≤ 3 / 4 * k ^ 2 * roundoff := by
      rw [Binary64.roundoff_eq]
      positivity
    have value : |k * q + q| = (k + 1) * |(q : ℝ)| := by
      rw [← add_one_mul, abs_mul, abs_of_pos (by linarith)]
    rw [sum_replicate_succ, add_one_mul]
    refine (total.add (Binary64.near_of_exactValue? known) (M := (k + 1 + 3 / 4 * k ^ 2 * roundoff) * |(q : ℝ)|)
      (Binary64.inRange_multiple lower upper (by linarith) (by linarith)) ?_).mono ?_
    · rw [value]
      linarith
    · have scaled := mul_le_mul_of_nonneg_right growth positive.le
      linarith

end Bounds

end Sample

end Calculator
