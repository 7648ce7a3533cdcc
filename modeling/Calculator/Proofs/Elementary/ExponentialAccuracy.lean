import Calculator.Proofs.Elementary.ExponentialSeries
import Calculator.Proofs.Elementary.LogarithmAccuracy
import Calculator.Proofs.Elementary.Parity

namespace Calculator.Elementary

open Binary64 (exactValue? rounded Near LogNear roundoff halfAway)

variable {x y z : Float} {q : ℚ} {k : ℤ}

section Reduction

structure Doublings (q : ℚ) (k : ℤ) : Prop where
  few : |(k : ℝ)| ≤ 1 + 29 / 20 * |(q : ℝ)|
  near : |(q : ℝ) - k * Real.log 2| ≤ 7 / 20

theorem exists_doublings (known : exactValue? x = some q) (bounded : |(q : ℝ)| ≤ 710) :
    ∃ k : ℤ, exactValue? (Binary64.round (x / lnTwo)) = some (k : ℚ) ∧ Doublings q k := by
  have small := Binary64.roundoff_lt
  have lower := Real.log_two_gt_d9
  have upper := Real.log_two_lt_d9
  obtain ⟨l, two, close⟩ := near_lnTwo
  obtain ⟨below, above⟩ := abs_le.mp close
  have positive : (0 : ℝ) < l := by linarith
  have quotient : |(q : ℝ) / l| ≤ 144270 / 100000 * |(q : ℝ)| := by
    rw [abs_div, abs_of_pos positive, div_le_iff₀ positive]
    nlinarith [abs_nonneg (q : ℝ)]
  have bound : |((q / l : ℚ) : ℝ)| ≤ 1100 := by
    push_cast
    linarith
  have range := Binary64.inRange_of_le (M := 1100) (by norm_num) (by norm_num)
  have value : exactValue? (x / lnTwo) = some (rounded (q / l)) := by
    rw [Binary64.exactValue?_div known two (Rat.cast_pos.mp positive).ne', Binary64.nearestReal?_of_inRange bound range]
  have nearest : |((halfAway (rounded (q / l)) : ℤ) : ℝ) - (q : ℝ) / l| ≤ 501 / 1000 := by
    have error := Binary64.abs_rounded_sub_le_roundoff bound range.normal
    have half := Rat.cast_le (K := ℝ) |>.mpr (Binary64.abs_halfAway_sub_le (rounded (q / l)))
    push_cast at half error
    have triangle := abs_sub_le ((halfAway (rounded (q / l)) : ℤ) : ℝ) (rounded (q / l) : ℚ) ((q : ℝ) / l)
    linarith
  refine ⟨halfAway (rounded (q / l)), Binary64.exactValue?_round value, ?_⟩
  generalize halfAway (rounded (q / l)) = k at nearest
  have few : |(k : ℝ)| ≤ 1 + 29 / 20 * |(q : ℝ)| := by
    have triangle := abs_sub_abs_le_abs_sub (k : ℝ) ((q : ℝ) / l)
    linarith [abs_nonneg (q : ℝ)]
  have split : (q : ℝ) - k * Real.log 2 = -(l * (k - (q : ℝ) / l)) + k * (l - Real.log 2) := by
    field_simp
    ring
  refine ⟨few, ?_⟩
  rw [split]
  refine (abs_add_le _ _).trans ?_
  rw [abs_neg, abs_mul, abs_mul, abs_of_pos positive]
  nlinarith [abs_nonneg (k : ℝ)]

theorem near_rest (known : exactValue? x = some q) (bounded : |(q : ℝ)| ≤ 710)
    (whole : exactValue? y = some (k : ℚ)) (doublings : Doublings q k) :
    Near (x - y * lnTwo) (q - k * Real.log 2) ((5 + 6 * |(q : ℝ)|) * roundoff) := by
  have error := Binary64.roundoff_pos
  have small := Binary64.roundoff_lt
  have lower := Real.log_two_gt_d9
  have upper := Real.log_two_lt_d9
  have few := doublings.few
  have count := abs_nonneg (k : ℝ)
  have doubled := (Binary64.near_of_exactValue? whole).mul near_lnTwo (κ := 3 * |(k : ℝ)| * roundoff)
    (M := 7 / 10 * |(k : ℝ)| + 1 / 10) (Binary64.inRange_of_le (by linarith) (by linarith))
    (by rw [Rat.cast_intCast]; linarith)
    (by rw [Rat.cast_intCast, abs_mul, abs_of_pos (by linarith : (0 : ℝ) < Real.log 2)]; nlinarith)
  rw [Rat.cast_intCast] at doubled
  refine ((Binary64.near_of_exactValue? known).sub doubled (M := 2 / 5)
    (Binary64.inRange_of_le (by norm_num) (by norm_num)) ?_).mono ?_
  · nlinarith [doublings.near]
  · nlinarith

end Reduction

section Scaling

variable {v δ : ℝ}

theorem logNear_exponential (rest : Near x v δ) (small : |v| ≤ 7 / 20) (close : δ ≤ 1 / 100) :
    LogNear (Series.exponential x) v (δ + 330 * roundoff) := by
  have error := Binary64.roundoff_pos
  have tiny := Binary64.roundoff_lt
  obtain ⟨p, known, near⟩ := rest
  have bound : |(p : ℝ)| ≤ 9 / 25 := by
    have apart := abs_sub_abs_le_abs_sub (p : ℝ) v
    linarith
  obtain ⟨t, value, closeT⟩ := Series.near_exponential known bound
  have least : 16 / 25 ≤ Real.exp p := by
    linarith [Real.add_one_le_exp (p : ℝ), (abs_le.mp bound).1]
  obtain ⟨positive, logarithm⟩ := Binary64.abs_log_sub_log_le (δ := 320 * roundoff) (Real.exp_pos p) (by linarith)
    (closeT.trans (by nlinarith))
  rw [Real.log_exp] at logarithm
  refine ⟨t, value, Rat.cast_pos.mp positive, (abs_sub_le _ (p : ℝ) _).trans ?_⟩
  nlinarith

theorem logNear_twoPow (least : -1074 ≤ k) (most : k ≤ 971) : LogNear (twoPow k) (k * Real.log 2) 0 := by
  have near := Binary64.logNear_of_exactValue? (exactValue?_twoPow least most) (Binary64.unit_pos k)
  rwa [Rat.cast_zpow, Rat.cast_ofNat, Real.log_zpow] at near

theorem halves (k : ℤ) : ((k.tdiv 2 : ℤ) : ℝ) * Real.log 2 + ((k - k.tdiv 2 : ℤ) : ℝ) * Real.log 2 = k * Real.log 2 := by
  rw [← add_mul, ← Int.cast_add, add_sub_cancel]

theorem halves_bounds (few : |k| ≤ 1100) :
    |k.tdiv 2| ≤ 550 ∧ -1074 ≤ k.tdiv 2 ∧ k.tdiv 2 ≤ 971 ∧ -1074 ≤ k - k.tdiv 2 ∧ k - k.tdiv 2 ≤ 971 := by
  obtain ⟨below, above⟩ := abs_le.mp few
  have parts := Int.mul_tdiv_add_tmod k 2
  have rest := Int.tmod_lt_of_pos k two_pos
  have rest' := Int.lt_tmod_of_pos k two_pos
  rw [abs_le]
  omega

section Factors

variable (near : LogNear x v δ) (few : |k| ≤ 1100) (small : |v| ≤ 1) (close : δ ≤ 1)
include near few small close

theorem logNear_first_factor : LogNear (x * twoPow (k.tdiv 2)) (v + (k.tdiv 2 : ℤ) * Real.log 2) (δ + 2 * roundoff) ∧
    |v + (k.tdiv 2 : ℤ) * Real.log 2| ≤ 400 := by
  obtain ⟨half, least, most, -⟩ := halves_bounds few
  have half' : |((k.tdiv 2 : ℤ) : ℝ)| ≤ 550 := by exact_mod_cast half
  have bound : |v + (k.tdiv 2 : ℤ) * Real.log 2| ≤ 400 := by
    refine (abs_add_le _ _).trans ?_
    rw [abs_mul, abs_of_pos (Real.log_pos one_lt_two)]
    nlinarith [Real.log_two_lt_d9, Real.log_two_gt_d9]
  obtain ⟨lower, upper⟩ := abs_le.mp bound
  have power := logNear_twoPow least most
  have product := near.mul power (near.isFinite_mul power (by linarith)) (by linarith)
  rw [add_zero] at product
  exact ⟨product, bound⟩

theorem logNear_scaleByTwoPow (normal : -701 ≤ v + k * Real.log 2) (finite : (scaleByTwoPow x k).isFinite = true) :
    LogNear (scaleByTwoPow x k) (v + k * Real.log 2) (δ + 4 * roundoff) := by
  have tiny := Binary64.roundoff_lt
  obtain ⟨-, -, -, least, most⟩ := halves_bounds few
  obtain ⟨first, -⟩ := logNear_first_factor near few small close
  have second := first.mul (logNear_twoPow least most) finite (by rw [add_assoc, halves]; linarith)
  rw [add_assoc, halves] at second
  exact second.mono (by linarith)

theorem isFinite_scaleByTwoPow (most : v + k * Real.log 2 ≤ 701) : (scaleByTwoPow x k).isFinite = true := by
  have tiny := Binary64.roundoff_lt
  obtain ⟨-, -, -, least, most'⟩ := halves_bounds few
  obtain ⟨first, -⟩ := logNear_first_factor near few small close
  exact first.isFinite_mul (logNear_twoPow least most') (by rw [add_assoc v, halves]; linarith)

end Factors

end Scaling

/-- The result, when it is finite, which it is if it is not near the greatest real. -/
theorem scaled_exponential (known : exactValue? x = some q) (bounded : |(q : ℝ)| ≤ 710)
    (whole : exactValue? y = some (k : ℚ)) (doublings : Doublings q k) (least : -700 ≤ q) :
    ((scaleByTwoPow (Series.exponential (x - y * lnTwo)) k).isFinite = true →
      LogNear (scaleByTwoPow (Series.exponential (x - y * lnTwo)) k) q ((340 + 6 * |(q : ℝ)|) * roundoff)) ∧
    (q ≤ 700 → (scaleByTwoPow (Series.exponential (x - y * lnTwo)) k).isFinite = true) := by
  have error := Binary64.roundoff_pos
  have tiny := Binary64.roundoff_lt
  have least' : (-700 : ℝ) ≤ q := by exact_mod_cast least
  have few : |k| ≤ 1100 := by
    have bound : |(k : ℝ)| ≤ 1100 := by linarith [doublings.few]
    exact_mod_cast bound
  have rest := near_rest known bounded whole doublings
  have series := logNear_exponential rest doublings.near (by nlinarith)
  have small : |(q : ℝ) - k * Real.log 2| ≤ 1 := doublings.near.trans (by norm_num)
  have split : (q : ℝ) - k * Real.log 2 + k * Real.log 2 = q := sub_add_cancel _ _
  refine ⟨fun finite => ?_, fun most => ?_⟩
  · have scaled := logNear_scaleByTwoPow series few small (by nlinarith) (by rw [split]; linarith) finite
    rw [split] at scaled
    exact scaled.mono (by nlinarith)
  · have most' : (q : ℝ) ≤ 700 := by exact_mod_cast most
    exact isFinite_scaleByTwoPow series few small (by nlinarith) (by rw [split]; linarith)

theorem exists_maxExponent : ∃ p ∈ exactValue? maxExponent, 700 ≤ p ∧ p ≤ 710 := by decide +kernel

theorem exists_minExponent : ∃ p ∈ exactValue? minExponent, p ≤ -700 := by decide +kernel

section Exponential

variable (known : exactValue? x = some q) (least : -700 ≤ q)
include known least

theorem exp_cases : exp x = .error .overflow ∧ 700 < q ∨
    ∃ w, exp x = finite w ∧ (w.isFinite = true → LogNear w q ((340 + 6 * |(q : ℝ)|) * roundoff)) ∧
      (q ≤ 700 → w.isFinite = true) := by
  obtain ⟨p, greatest, above, below⟩ := exists_maxExponent
  obtain ⟨p', smallest, below'⟩ := exists_minExponent
  have notLess : ¬ x < minExponent := fun less =>
    absurd ((Binary64.lt_iff_value_lt known smallest).mp less) (not_lt.mpr (below'.trans least))
  have compared : x > maxExponent ↔ p < q := Binary64.lt_iff_value_lt greatest known
  have guard : (x.isNaN || decide (x > maxExponent)) = true ↔ p < q := by
    rw [Binary64.isNaN_of_exactValue? known, Bool.false_or, decide_eq_true_iff]
    exact Binary64.lt_iff_value_lt greatest known
  unfold exp
  by_cases great : p < q
  · rw [if_pos (guard.mpr great)]
    exact .inl ⟨rfl, above.trans_lt great⟩
  · rw [if_neg (guard.not.mpr great), if_neg notLess]
    have most : q ≤ 710 := (not_lt.mp great).trans below
    have bounded : |(q : ℝ)| ≤ 710 := abs_le.mpr ⟨by exact_mod_cast (by linarith : -710 ≤ q), by exact_mod_cast most⟩
    obtain ⟨k, whole, doublings⟩ := exists_doublings known bounded
    refine .inr ⟨_, rfl, ?_⟩
    rw [Binary64.toInt?_eq_some_iff.mpr whole, Option.getD_some]
    exact scaled_exponential known bounded whole doublings least

theorem logNear_exp (result : exp x = .ok z) : LogNear z q ((340 + 6 * |(q : ℝ)|) * roundoff) := by
  rcases exp_cases known least with ⟨failed, -⟩ | ⟨w, outcome, accurate, -⟩
  · rw [failed] at result
    cases result
  · rw [outcome, finite] at result
    split at result
    · rename_i inRange
      cases result
      exact accurate inRange
    · cases result

theorem exists_exp (most : q ≤ 700) : ∃ z, exp x = .ok z := by
  rcases exp_cases known least with ⟨-, great⟩ | ⟨w, outcome, -, inRange⟩
  · exact absurd most (not_le.mpr great)
  · rw [outcome, finite, if_pos (inRange most)]
    exact ⟨w, rfl⟩

end Exponential

end Calculator.Elementary
