import Calculator.Proofs.Binary64.Nearest

namespace Calculator.Binary64

variable {a b k : ℤ} {q : ℚ}

theorem inv_le_abs_sub (nonzero : b ≠ 0) (apart : (a / b : ℚ) ≠ k) : 1 / |(b : ℚ)| ≤ |k - (a / b : ℚ)| := by
  have divisor : (b : ℚ) ≠ 0 := by exact_mod_cast nonzero
  have difference : k * b - a ≠ 0 := by
    intro same
    apply apart
    rw [div_eq_iff divisor]
    exact_mod_cast (Int.sub_eq_zero.mp same).symm
  have counted : (1 : ℚ) ≤ |((k * b - a : ℤ) : ℚ)| := by exact_mod_cast Int.one_le_abs difference
  have scaled : (k - a / b : ℚ) = (k * b - a : ℤ) / b := by
    push_cast
    field_simp
  rw [scaled, abs_div]
  exact div_le_div_of_nonneg_right counted (abs_nonneg _)

theorem rounded_of_abs_eq {e : ℤ} (power : |q| = 2 ^ e) (least : -1074 ≤ e) : rounded q = q := by
  rcases eq_or_eq_neg_of_abs_eq power with rfl | rfl
  · exact rounded_twoPow least
  · rw [rounded_neg, rounded_twoPow least]

theorem rounded_div_ne (dividend : |a| ≤ 2 ^ 53) (divisor : |b| ≤ 2 ^ 53) (nonzero : b ≠ 0)
    (apart : (a / b : ℚ) ≠ k) : rounded (a / b) ≠ k := by
  intro whole
  have positive : (0 : ℚ) < |(b : ℚ)| := abs_pos.mpr (by exact_mod_cast nonzero)
  have distance := inv_le_abs_sub nonzero apart
  have error := abs_rounded_sub_le (a / b : ℚ)
  have magnitude : |(a / b : ℚ)| ≤ 2 ^ 53 * (1 / |(b : ℚ)|) := by
    rw [abs_div, ← div_eq_mul_one_div]
    exact div_le_div_of_nonneg_right (by exact_mod_cast dividend) positive.le
  have fraction : (2 : ℚ) ^ (-53 : ℤ) ≤ 1 / |(b : ℚ)| := by
    rw [zpow_neg, ← one_div]
    exact one_div_le_one_div_of_le positive (by exact_mod_cast divisor)
  generalize (a / b : ℚ) = q at *
  rw [whole] at error
  have half : 1 / |(b : ℚ)| ≤ 2 ^ (unitExponent q - 1) := by
    rw [zpow_sub_one₀ two_ne_zero, ← div_eq_mul_inv]
    exact distance.trans error
  have exponent : -53 ≤ unitExponent q - 1 := (zpow_le_zpow_iff_right₀ one_lt_two).mp (fraction.trans half)
  have nonzero' : q ≠ 0 := by
    rintro rfl
    exact apart (rounded_zero.symm.trans whole)
  have power : |q| = 2 ^ (unitExponent q + 52) := by
    refine le_antisymm ?_ (le_of_unitExponent nonzero' (by omega))
    calc |q| ≤ 2 ^ 53 * (1 / |(b : ℚ)|) := magnitude
      _ ≤ 2 ^ (53 : ℤ) * 2 ^ (unitExponent q - 1) := mul_le_mul_of_nonneg_left half (by positivity)
      _ = 2 ^ (unitExponent q + 52) := by
        rw [← zpow_add₀ two_ne_zero]
        congr 1
        omega
  exact apart ((rounded_of_abs_eq power (by omega)).symm.trans whole)

theorem abs_div_le (dividend : |a| ≤ 2 ^ 53) (nonzero : b ≠ 0) : |(a / b : ℚ)| ≤ 2 ^ 53 := by
  have counted : (1 : ℚ) ≤ |(b : ℚ)| := by exact_mod_cast Int.one_le_abs nonzero
  rw [abs_div]
  exact (div_le_self (abs_nonneg _) counted).trans (by exact_mod_cast dividend)

theorem rounded_div_eq_iff (dividend : |a| ≤ 2 ^ 53) (divisor : |b| ≤ 2 ^ 53) (nonzero : b ≠ 0) :
    rounded (a / b) = k ↔ (a / b : ℚ) = k := by
  constructor
  · intro same
    by_contra apart
    exact rounded_div_ne dividend divisor nonzero apart same
  · intro whole
    have short := abs_div_le dividend nonzero
    rw [whole] at short ⊢
    exact rounded_intCast (by exact_mod_cast short)

/-- Rounding keeps the whole part of a quotient. -/
theorem floor_rounded_div (dividend : |a| ≤ 2 ^ 53) (divisor : |b| ≤ 2 ^ 53) (nonzero : b ≠ 0) :
    ⌊rounded (a / b)⌋ = ⌊(a / b : ℚ)⌋ := by
  obtain ⟨least, greatest⟩ := abs_le.mp (abs_div_le dividend nonzero)
  have below := Int.floor_le (a / b : ℚ)
  have above := Int.lt_floor_add_one (a / b : ℚ)
  have atLeast : -2 ^ 53 ≤ ⌊(a / b : ℚ)⌋ := Int.le_floor.mpr (by exact_mod_cast least)
  have atMost : (⌊(a / b : ℚ)⌋ : ℚ) ≤ 2 ^ 53 := below.trans greatest
  generalize ⌊(a / b : ℚ)⌋ = k at *
  have shortFloor : |k| ≤ 2 ^ 53 := abs_le.mpr ⟨atLeast, by exact_mod_cast atMost⟩
  by_cases whole : (a / b : ℚ) = k
  · rw [whole, rounded_intCast shortFloor, Int.floor_intCast]
  · have apart : (a / b : ℚ) ≠ (k + 1 : ℤ) := by
      push_cast
      exact above.ne
    have strict : (k : ℚ) < 2 ^ 53 := (lt_of_le_of_ne below (Ne.symm whole)).trans_le greatest
    have shortNext : |k + 1| ≤ 2 ^ 53 := by
      have next : k < 2 ^ 53 := by exact_mod_cast strict
      rw [abs_le]
      omega
    have lower : (k : ℚ) ≤ rounded (a / b) := (rounded_intCast shortFloor).symm.trans_le (rounded_mono below)
    have upper : rounded (a / b) ≤ (k + 1 : ℤ) := by
      rw [← rounded_intCast shortNext]
      exact rounded_mono (by exact_mod_cast above.le)
    have missed := rounded_div_ne dividend divisor nonzero apart
    rw [Int.floor_eq_iff]
    exact ⟨lower, by exact_mod_cast lt_of_le_of_ne upper missed⟩

end Calculator.Binary64
