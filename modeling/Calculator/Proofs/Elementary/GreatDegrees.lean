import Calculator.Proofs.Elementary.RootAccuracy
import Calculator.Proofs.Elementary.WholePowers

namespace Calculator

open Binary64 (exactValue? toInt? nearestReal? rounded Representable Near roundoff)

variable {x y a e : Float} {q b : ℚ}

namespace Binary64

theorem rounded_one_add (small : |q| ≤ 2 ^ (-60 : ℤ)) : rounded (1 + q) = 1 := by
  obtain ⟨lower, upper⟩ := abs_le.mp small
  apply le_antisymm
  · calc rounded (1 + q) ≤ rounded (1 + 2 ^ (-60 : ℤ)) := rounded_mono (by linarith)
      _ = 1 := by decide +kernel
  · calc 1 = rounded (1 + -2 ^ (-60 : ℤ)) := by decide +kernel
      _ ≤ rounded (1 + q) := rounded_mono (by linarith)

end Binary64

namespace Series

structure Absorbed (n : ℕ) (s : PartialSum) : Prop where
  positive : 0 < n
  term : ∃ p, exactValue? s.term = some p ∧ |p| ≤ 1
  total : exactValue? s.total = some 1

theorem exactValue?_exponential_of_tiny (known : exactValue? x = some q) (tiny : |q| ≤ 2 ^ (-60 : ℤ)) :
    exactValue? (exponential x) = some 1 := by
  have one := Binary64.exactValue?_ofNat_one
  have step (n : ℕ) (s : PartialSum) (inside : n < maxTerms + 1) (absorbed : Absorbed n s) :
      Absorbed (n + 1) (exponentialStep x n s) := by
    obtain ⟨positive, ⟨p, term, small⟩, total⟩ := absorbed
    have divisor := Binary64.toInt?_eq_some_iff.mp (Binary64.toInt?_ofNat (n := n) (by unfold maxTerms at inside; omega))
    have count : (1 : ℚ) ≤ (n : ℤ) := by exact_mod_cast positive
    have quotient : |q / (n : ℤ)| ≤ 2 ^ (-60 : ℤ) := by
      rw [abs_div, abs_of_pos (by linarith : (0 : ℚ) < (n : ℤ))]
      exact (div_le_self (abs_nonneg q) count).trans tiny
    have factor := Binary64.exactValue?_div known divisor (by linarith)
    rw [Binary64.nearestReal?_of_abs_le quotient (by decide) (by decide)] at factor
    have product : |p * rounded (q / (n : ℤ))| ≤ 2 ^ (-60 : ℤ) := by
      rw [abs_mul]
      exact (mul_le_of_le_one_left (abs_nonneg _) small).trans (Binary64.abs_rounded_le (by decide) quotient)
    have next := Binary64.exactValue?_mul term factor
    rw [Binary64.nearestReal?_of_abs_le product (by decide) (by decide)] at next
    have bound := Binary64.abs_rounded_le (by decide) product
    have sum := Binary64.exactValue?_add total next
    have near : |1 + rounded (p * rounded (q / (n : ℤ)))| ≤ 2 ^ (1 : ℤ) := by
      refine (abs_add_le _ _).trans ?_
      rw [abs_one]
      norm_num at bound ⊢
      linarith
    rw [Binary64.nearestReal?_of_abs_le near (by decide) (by decide), Binary64.rounded_one_add bound] at sum
    refine ⟨Nat.succ_pos n, ⟨_, next, bound.trans ?_⟩, sum⟩
    norm_num
  obtain ⟨-, -, -, -, total⟩ := run_induction termIsSmall step (Nat.add_comm 1 maxTerms).le
    (⟨one_pos, ⟨1, one, by rw [abs_one]⟩, one⟩ : Absorbed 1 ⟨1, 1⟩)
  rw [exponential_eq]
  exact total

end Series

namespace Elementary

section Exponentials

variable (known : exactValue? x = some q)
include known

theorem exp_of_moderate (least : -700 ≤ q) (most : q ≤ 700) :
    exp x = finite (scaleByTwoPow (Series.exponential (x - Binary64.round (x / lnTwo) * lnTwo))
      ((toInt? (Binary64.round (x / lnTwo))).getD 0)) := by
  obtain ⟨p, greatest, above, -⟩ := exists_maxExponent
  obtain ⟨p', smallest, below⟩ := exists_minExponent
  have notGreat : ¬ (x.isNaN || decide (x > maxExponent)) = true := by
    rw [Binary64.isNaN_of_exactValue? known, Bool.false_or, decide_eq_true_iff, gt_iff_lt,
      Binary64.lt_iff_value_lt greatest known, not_lt]
    exact most.trans above
  have notLess : ¬ x < minExponent := by
    rw [Binary64.lt_iff_value_lt known smallest, not_lt]
    exact below.trans least
  rw [exp, if_neg notGreat, if_neg notLess]

theorem doublings_of_small (small : |q| ≤ 1 / 10) : exactValue? (Binary64.round (x / lnTwo)) = some 0 := by
  have small' : |(q : ℝ)| ≤ 1 / 10 := by
    have cast := Rat.cast_le (K := ℝ) |>.mpr small
    push_cast at cast
    exact cast
  obtain ⟨k, whole, few, near⟩ := exists_doublings known (by linarith)
  have one : |k| < 2 := by
    have bound : |(k : ℝ)| < 2 := by linarith
    exact_mod_cast bound
  obtain ⟨least, most⟩ := abs_lt.mp one
  have close := abs_le.mp near
  have bound := abs_le.mp small'
  have ln := Real.log_two_gt_d9
  suffices zero : k = 0 by rwa [zero, Int.cast_zero] at whole
  interval_cases k
  · push_cast at close
    linarith
  · rfl
  · push_cast at close
    linarith

theorem exp_of_tiny (tiny : |q| ≤ 2 ^ (-60 : ℤ)) : ∃ z, exp x = .ok z ∧ exactValue? z = some 1 := by
  have small : |q| ≤ 1 / 10 := tiny.trans (by norm_num)
  obtain ⟨lower, upper⟩ := abs_le.mp small
  have none := doublings_of_small known small
  obtain ⟨l, two, -⟩ := near_lnTwo
  have multiple := Binary64.exactValue?_mul none two
  rw [zero_mul, Binary64.nearestReal?_zero] at multiple
  have rest := Binary64.exactValue?_sub known multiple
  rw [sub_zero, Binary64.nearestReal?_of_exactValue? known] at rest
  have series := Series.exactValue?_exponential_of_tiny rest tiny
  have power := exactValue?_twoPow (e := 0) (by decide) (by decide)
  have representable := Binary64.nearestReal?_of_exactValue? Binary64.exactValue?_ofNat_one
  rw [zpow_zero] at power
  have first := Binary64.exactValue?_mul series power
  rw [one_mul, representable] at first
  have second := Binary64.exactValue?_mul first power
  rw [one_mul, representable] at second
  have whole : toInt? (Binary64.round (x / lnTwo)) = some 0 := Binary64.toInt?_eq_some_iff.mpr none
  refine ⟨_, ?_, second⟩
  rw [exp_of_moderate known (by linarith) (by linarith), whole, Option.getD_some]
  exact finite_of_exactValue? second

end Exponentials

section Degrees

theorem abs_log_of_near_one (near : |q - 1| ≤ 1 / 10 ^ 9) : |Real.log q| ≤ 2 / 10 ^ 9 := by
  have near' : |(q : ℝ) - 1| ≤ 1 / 10 ^ 9 * 1 := by
    have cast := Rat.cast_le (K := ℝ) |>.mpr near
    push_cast at cast
    linarith
  obtain ⟨-, close⟩ := Binary64.abs_log_sub_log_le one_pos (by norm_num) near'
  rw [Real.log_one, sub_zero] at close
  exact close.trans (by norm_num)

variable (known : exactValue? a = some q) (near : |q - 1| ≤ 1 / 10 ^ 9) (degree : exactValue? y = some b)
  (great : 2 ^ 37 < b)
include known near degree great

theorem estimate_of_great_degree (result : power a (1 / y) = .ok e) : e = 1 := by
  have above : 1 < b := lt_trans (by norm_num) great
  obtain ⟨lower, upper⟩ := abs_le.mp near
  have positive : 0 < q := by linarith
  obtain ⟨r, reciprocal, -, -⟩ := exists_reciprocal_degree degree above
  have small : |1 / b| ≤ 2 ^ (-37 : ℤ) := by
    rw [abs_of_pos (by positivity), div_le_iff₀ (by linarith)]
    norm_num at great ⊢
    linarith
  have rounds := Binary64.exactValue?_div Binary64.exactValue?_ofNat_one degree (by linarith)
  rw [Binary64.nearestReal?_of_abs_le small (by decide) (by decide), reciprocal, Option.some_inj] at rounds
  have least := Binary64.abs_rounded_le (by decide) small
  rw [← rounds] at least
  obtain ⟨l, logarithm, close⟩ := near_lnPositive known positive
  have small' : |l| ≤ 2 ^ (-23 : ℤ) := by
    have error := Binary64.roundoff_pos
    have tiny := Binary64.roundoff_lt
    have log := abs_log_of_near_one near
    have triangle := abs_sub_abs_le_abs_sub (l : ℝ) (Real.log q)
    have digit : ((2 : ℚ) ^ (-23 : ℤ)) = 1 / 2 ^ 23 := by norm_num
    rw [digit, ← Rat.cast_le (K := ℝ)]
    push_cast
    nlinarith
  have product : |r * l| ≤ 2 ^ (-60 : ℤ) := by
    rw [abs_mul]
    exact (mul_le_mul least small' (abs_nonneg l) (by positivity)).trans_eq (by norm_num)
  have value := Binary64.exactValue?_mul reciprocal logarithm
  rw [Binary64.nearestReal?_of_abs_le product (by decide) (by decide)] at value
  obtain ⟨z, success, one⟩ := exp_of_tiny value (Binary64.abs_rounded_le (by decide) product)
  rw [power_reciprocal known positive degree above, realPower_of_pos known positive, success] at result
  cases result
  exact (Binary64.eq_or_zero_of_exactValue? one Binary64.exactValue?_ofNat_one).resolve_right one_ne_zero

omit known near in
theorem rounded_weight : 1 ≤ rounded (b - 1) ∧ |rounded (b - 1) - (b - 1)| ≤ b / 2 ^ 53 ∧
    exactValue? (y - 1) = some (rounded (b - 1)) := by
  have positive : 0 < b := lt_trans (by norm_num) great
  have bound : |b - 1| ≤ b := by rw [abs_of_pos] <;> linarith
  have weight := Binary64.exactValue?_sub degree Binary64.exactValue?_ofNat_one
  rw [(Binary64.representable_of_exactValue? degree).nearestReal?_of_abs_le bound] at weight
  refine ⟨?_, Binary64.abs_rounded_sub_le_mul bound ?_, weight⟩
  · calc (1 : ℚ) = rounded 1 := Binary64.representable_one.rounded_eq.symm
      _ ≤ rounded (b - 1) := Binary64.rounded_mono (by linarith)
  · exact (zpow_le_one_of_nonpos₀ one_le_two (by norm_num)).trans (by linarith)

omit known in
theorem rounded_sum {z : Float} (representative : exactValue? z = some q) :
    ∃ s, exactValue? ((y - 1) * 1 + z) = some s ∧ |s - b| ≤ 4 * b / 2 ^ 53 := by
  have greatest := Binary64.le_greatest degree
  have normal : 2 ^ (-1022 : ℤ) ≤ 2 * b :=
    (zpow_le_one_of_nonpos₀ one_le_two (by norm_num)).trans (by linarith)
  obtain ⟨below, above⟩ := abs_le.mp near
  obtain ⟨least, close, weight⟩ := rounded_weight degree great
  have weighted := Binary64.exactValue?_mul weight Binary64.exactValue?_ofNat_one
  rw [mul_one, Binary64.nearestReal?_of_exactValue? weight] at weighted
  have sum := Binary64.exactValue?_add weighted representative
  have most : rounded (b - 1) ≤ b := by
    calc rounded (b - 1) ≤ rounded b := Binary64.rounded_mono (by linarith)
      _ = b := (Binary64.representable_of_exactValue? degree).rounded_eq
  generalize rounded (b - 1) = c at least close sum most
  have positive : 0 < c + q := by linarith
  have double : |c + q| ≤ 2 * b := by
    rw [abs_of_pos positive]
    linarith
  have small : |c + q| < 2 ^ 1024 - 2 ^ 970 := by
    have unit : (2 : ℚ) ^ 971 = 2 ^ 970 * 2 := pow_succ 2 970
    have large : (2 : ℚ) ^ 2 ≤ 2 ^ 970 := pow_le_pow_right₀ one_le_two (by norm_num)
    rw [abs_of_pos positive]
    rw [unit] at greatest
    generalize (2 : ℚ) ^ 1024 = limit at greatest ⊢
    generalize (2 : ℚ) ^ 970 = unit at greatest large ⊢
    linarith
  rw [Binary64.nearestReal?_of_abs_lt small] at sum
  refine ⟨_, sum, ?_⟩
  have error := abs_le.mp (Binary64.abs_rounded_sub_le_mul double normal)
  have error' := abs_le.mp close
  rw [abs_le]
  constructor <;> linarith

theorem near_mean_of_great_degree {lower : Float} (one : exactValue? lower = some 1) :
    ∃ v, exactValue? (((y - 1) * 1 + a / lower) / y) = some v ∧ |v - 1| ≤ 1 / 10 ^ 11 := by
  have positive : 0 < b := lt_trans (by norm_num) great
  have balanced := Binary64.exactValue?_div known one one_ne_zero
  rw [div_one, Binary64.nearestReal?_of_exactValue? known] at balanced
  obtain ⟨s, sum, close⟩ := rounded_sum near degree great balanced
  have mean := Binary64.exactValue?_div sum degree positive.ne'
  have quotient : |s / b - 1| ≤ 4 / 2 ^ 53 := by
    rw [div_sub_one positive.ne', abs_div, abs_of_pos positive, div_le_iff₀ positive]
    linarith
  obtain ⟨lower, upper⟩ := abs_le.mp quotient
  have small : |s / b| ≤ 2 := by
    rw [abs_le]
    constructor <;> linarith
  rw [Binary64.nearestReal?_of_abs_le (e := 1) (by rwa [zpow_one]) (by decide) (by decide)] at mean
  refine ⟨_, mean, ?_⟩
  have error := Binary64.abs_rounded_sub_le_mul small
    ((zpow_le_one_of_nonpos₀ one_le_two (by norm_num)).trans one_le_two)
  calc |rounded (s / b) - 1| ≤ |rounded (s / b) - s / b| + |s / b - 1| := abs_sub_le _ _ _
    _ ≤ 2 / 2 ^ 53 + 4 / 2 ^ 53 := add_le_add error quotient
    _ ≤ 1 / 10 ^ 11 := by norm_num

/-- Whether there is a Newton step or not. -/
theorem root_of_great_degree (result : power a (1 / y) = .ok e) :
    ∃ v, exactValue? (newtonStep e a y) = some v ∧ |v - 1| ≤ 1 / 10 ^ 11 := by
  obtain rfl := estimate_of_great_degree known near degree great result
  have one := Binary64.exactValue?_ofNat_one
  rcases newtonStep_cases 1 a y with kept | ⟨lower, power, corrected⟩
  · rw [kept]
    exact ⟨1, one, by norm_num⟩
  · obtain ⟨least, -, weight⟩ := rounded_weight degree great
    obtain ⟨w, success, value⟩ := exists_power_of_unit one (.inr rfl) weight (by linarith)
    obtain rfl := Except.ok.inj (power.symm.trans success)
    rw [corrected]
    exact near_mean_of_great_degree known near degree great value

end Degrees

end Elementary

end Calculator
