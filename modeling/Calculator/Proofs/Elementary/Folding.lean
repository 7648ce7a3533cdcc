import Calculator.Elementary.Angle
import Calculator.Proofs.Elementary.SeriesBounds

namespace Calculator.Elementary

open Binary64 (Between exactValue? toInt? abs)
open Series (Moderate precision)

variable {d s c : Float}

section Folds

theorem between_pi : Between (-4) 4 pi := by decide +kernel

theorem between_radians (folded : Between (-45) 45 d) : Between (-1) 1 (radians d) := by
  have product : Between (-(45 * 4)) (45 * 4) (d * pi) := folded.mul between_pi (by decide)
  exact Between.div (product.mono (by decide) (by decide)) (by rfl : toInt? 180 = some 180) (by decide) (by decide)

theorem moderate_toRightAngle {low high : Float → Float} (ofLow : ∀ {x}, Between (-1) 1 x → Moderate (low x))
    (ofHigh : ∀ {x}, Between (-1) 1 x → Moderate (high x)) (inside : Between 0 90 d) :
    Moderate (if d > 45 then high (radians (90 - d)) else low (radians d)) := by
  have right : Between 90 90 90 := Binary64.between_of_toInt? (by rfl)
  have parts := inside.split_gt (by rfl : toInt? 45 = some 45)
  by_cases above : d > 45
  · rw [if_pos above] at parts ⊢
    have complement : Between (90 - 90) (90 - 45) (90 - d) := right.sub parts (by decide) (by decide)
    exact ofHigh (between_radians (complement.mono (by decide) (by decide)))
  · rw [if_neg above] at parts ⊢
    exact ofLow (between_radians (parts.mono (by decide) (by decide)))

theorem moderate_sineToRightAngle (inside : Between 0 90 d) : Moderate (sineToRightAngle d) :=
  moderate_toRightAngle Series.moderate_sine Series.moderate_cosine inside

theorem moderate_cosineToRightAngle (inside : Between 0 90 d) : Moderate (cosineToRightAngle d) :=
  moderate_toRightAngle Series.moderate_cosine Series.moderate_sine inside

theorem between_supplement (inside : Between 0 180 d) :
    if d > 90 then Between 0 90 (180 - d) else Between 0 90 d := by
  have half : Between 180 180 180 := Binary64.between_of_toInt? (by rfl)
  have parts := inside.split_gt (by rfl : toInt? 90 = some 90)
  by_cases above : d > 90
  · rw [if_pos above] at parts ⊢
    exact half.sub parts (by decide) (by decide)
  · rw [if_neg above] at parts ⊢
    exact parts

theorem moderate_sineToHalfTurn (inside : Between 0 180 d) : Moderate (sineToHalfTurn d) := by
  have folded := between_supplement inside
  apply moderate_sineToRightAngle
  split
  · rwa [if_pos ‹_›] at folded
  · rwa [if_neg ‹_›] at folded

theorem moderate_cosineToHalfTurn (inside : Between 0 180 d) : Moderate (cosineToHalfTurn d) := by
  have folded := between_supplement inside
  unfold cosineToHalfTurn
  split
  · rw [if_pos ‹_›] at folded
    exact (moderate_cosineToRightAngle folded).neg
  · rw [if_neg ‹_›] at folded
    exact moderate_cosineToRightAngle folded

theorem moderate_overTurn {toHalfTurn : Float → Float} (ofHalf : ∀ {x}, Between 0 180 x → Moderate (toHalfTurn x))
    (inside : Between 0 360 d) : Moderate (overTurn toHalfTurn d) := by
  have half : toInt? 180 = some 180 := by rfl
  have whole : toInt? 360 = some 360 := by rfl
  have parts := inside.split_ge whole
  unfold overTurn
  split
  · rw [if_pos ‹_›] at parts
    have start := parts.sub (Binary64.between_of_toInt? whole) (by decide) (by decide)
    exact ofHalf (start.mono (by decide) (by decide))
  · have halves := inside.split_ge half
    split
    · rw [if_pos ‹_›] at halves
      exact (ofHalf (halves.sub (Binary64.between_of_toInt? half) (by decide) (by decide))).neg
    · rw [if_neg ‹_›] at halves
      exact ofHalf halves

end Folds

section Tangents

variable {b : ℚ}

theorem exists_precision : ∃ p ∈ exactValue? precision, 1 / 2 ^ 57 ≤ p := by decide +kernel

theorem exists_quotient (moderate : Moderate s) (divisor : exactValue? c = some b) (large : ¬ abs c < precision) :
    ∃ q, exactValue? (s / c) = some q := by
  obtain ⟨a, known, small⟩ := Binary64.between_neg_iff.mp moderate
  obtain ⟨p, tolerance, least⟩ := exists_precision
  have apart : 1 / 2 ^ 57 ≤ |b| :=
    least.trans (not_lt.mp ((Binary64.lt_iff_value_lt (Binary64.exactValue?_abs divisor) tolerance).not.mp large))
  have positive : 0 < |b| := lt_of_lt_of_le (by norm_num) apart
  have quotient : |a / b| ≤ 2 ^ (71 : ℤ) := by
    have short : |a| ≤ 2 ^ 14 := small.trans (by norm_num [Series.maxTerms])
    rw [abs_div, div_le_iff₀ positive]
    calc |a| ≤ 2 ^ 14 := short
      _ = 2 ^ (71 : ℤ) * (1 / 2 ^ 57) := by norm_num
      _ ≤ 2 ^ (71 : ℤ) * |b| := mul_le_mul_of_nonneg_left apart (by norm_num)
  have rounds := Binary64.nearestReal?_of_abs_le quotient (by decide) (by decide)
  exact ⟨_, (Binary64.exactValue?_div known divisor (abs_pos.mp positive)).trans rounds⟩

end Tangents

end Calculator.Elementary
