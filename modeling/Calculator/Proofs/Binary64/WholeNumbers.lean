import Calculator.Proofs.Binary64.Representable
import Calculator.Proofs.Whole

namespace Calculator.Binary64

variable {n : ℤ}

theorem exists_int_rounded (n : ℤ) : ∃ k : ℤ, rounded n = k := by
  by_cases coarse : 0 ≤ unitExponent n
  · obtain ⟨u, unit⟩ := Int.eq_ofNat_of_zero_le coarse
    refine ⟨nearestEven (n / 2 ^ unitExponent n) * 2 ^ u, ?_⟩
    rw [rounded, unit, zpow_natCast]
    push_cast
    rfl
  · refine ⟨n, rounded_intCast ?_⟩
    have small := (lt_of_unitExponent n).trans_le (zpow_le_zpow_right₀ one_le_two (by omega : _ ≤ (53 : ℤ)))
    exact_mod_cast small.le

theorem exists_int_rounded_of_long (long : 2 ^ 53 ≤ n) : ∃ k : ℤ, 2 ^ 53 ≤ k ∧ rounded n = k := by
  obtain ⟨k, whole⟩ := exists_int_rounded n
  have above := rounded_mono (by exact_mod_cast long : ((2 ^ 53 : ℤ) : ℚ) ≤ n)
  rw [rounded_intCast (by norm_num), whole] at above
  exact ⟨k, by exact_mod_cast above, whole⟩

/-- A whole number of at most 53 binary digits, and zeros behind them. -/
def IsShortWhole (n : ℤ) : Prop := ∃ (m : ℤ) (k : ℕ), |m| < 2 ^ 53 ∧ n = m * 2 ^ k

theorem IsShortWhole.even_of_long (short : IsShortWhole n) (long : 2 ^ 53 ≤ |n|) : Even n := by
  obtain ⟨m, k, digits, rfl⟩ := short
  have zeros : k ≠ 0 := by
    rintro rfl
    rw [pow_zero, mul_one] at long
    exact long.not_gt digits
  exact (Int.even_pow.mpr ⟨even_two, zeros⟩).mul_left m

theorem isShortWhole_of_representable (representable : Representable n) : IsShortWhole n := by
  obtain ⟨-, m, e, short, -, form⟩ := representable_iff.mp representable
  by_cases whole : 0 ≤ e
  · obtain ⟨k, rfl⟩ := Int.eq_ofNat_of_zero_le whole
    rw [zpow_natCast] at form
    exact ⟨m, k, short, by exact_mod_cast form⟩
  · -- the digits that are no whole units are zeros
    refine ⟨n, 0, ?_, by rw [pow_zero, mul_one]⟩
    have below : |(n : ℚ)| ≤ |(m : ℚ)| := by
      rw [form, abs_mul, abs_of_pos (unit_pos e)]
      exact mul_le_of_le_one_right (abs_nonneg _) (zpow_le_one_of_nonpos₀ one_le_two (by omega))
    have below : |n| ≤ |m| := by exact_mod_cast below
    exact below.trans_lt short

theorem rounded_intCast_eq_iff (small : |n| ≤ 2 ^ 63) : rounded n = n ↔ IsShortWhole n := by
  have magnitude : |(n : ℚ)| ≤ 2 ^ (63 : ℤ) := by exact_mod_cast small
  constructor
  · intro same
    apply isShortWhole_of_representable
    rw [Representable, nearestReal?_of_abs_le magnitude (by decide) (by decide), same]
  · rintro ⟨m, k, short, rfl⟩
    have same := rounded_of_short short.le (by omega : -1074 ≤ (k : ℤ))
    rw [zpow_natCast] at same
    exact_mod_cast same

section Greatest

theorem abs_rounded_sub_le_of_lt (small : |n| < 2 ^ 63) : |rounded n - n| ≤ 512 := by
  by_cases zero : n = 0
  · rw [zero, Int.cast_zero, rounded_zero, sub_zero, abs_zero]
    norm_num
  have unit : unitExponent n ≤ 10 := by
    apply unitExponent_le (by exact_mod_cast zero) _ (by decide)
    exact_mod_cast small
  have half : (2 : ℚ) ^ unitExponent n ≤ 2 ^ (10 : ℤ) := zpow_le_zpow_right₀ one_le_two unit
  have near := abs_rounded_sub_le n
  norm_num at half
  linarith

theorem rounded_lt (nonnegative : 0 ≤ n) (small : n < 2 ^ 63 - 512) : rounded n < 2 ^ 63 := by
  have near := abs_rounded_sub_le_of_lt (n := n) (by rw [abs_of_nonneg nonnegative]; omega)
  have bound : (n : ℚ) < 2 ^ 63 - 512 := by exact_mod_cast small
  linarith [(abs_le.mp near).2]

/-- Halfway between two reals, the even one is above. -/
theorem rounded_halfway : rounded ((2 ^ 63 - 512 : ℤ) : ℚ) = 2 ^ 63 := by
  have unit : unitExponent ((2 ^ 63 - 512 : ℤ) : ℚ) = 10 := by
    apply le_antisymm
    · exact unitExponent_le (by norm_num) (by norm_num [abs_of_pos]) (by decide)
    · by_contra fine
      have below := (lt_of_unitExponent ((2 ^ 63 - 512 : ℤ) : ℚ)).trans_le
        (zpow_le_zpow_right₀ one_le_two (by omega : _ ≤ (62 : ℤ)))
      norm_num [abs_of_pos] at below
  have floor : ⌊((2 ^ 63 - 512 : ℤ) : ℚ) / 2 ^ (10 : ℤ)⌋ = 2 ^ 53 - 1 := by
    rw [Int.floor_eq_iff]
    norm_num
  rw [rounded, unit, nearestEven, floor]
  norm_num

theorem rounded_eq_two_pow (great : 2 ^ 63 - 512 ≤ n) (small : n ≤ 2 ^ 63) : rounded n = 2 ^ 63 := by
  apply le_antisymm
  · have power : rounded (2 ^ 63) = 2 ^ 63 := rounded_twoPow (e := 63) (by decide)
    rw [← power]
    exact rounded_mono (by exact_mod_cast small)
  · rw [← rounded_halfway]
    exact rounded_mono (by exact_mod_cast great)

/-- Whole numbers that are rounded stay in range unless they are so near to its upper end that they become that. -/
theorem exists_toInt_eq_rounded (least : -2 ^ 63 ≤ n) (small : n < 2 ^ 63 - 512) :
    ∃ w : Int64, w.toInt = rounded n := by
  obtain ⟨k, whole⟩ := exists_int_rounded n
  have lower : (-2 ^ 63 : ℚ) ≤ k := by
    have power : rounded (-2 ^ 63) = -2 ^ 63 := by
      rw [rounded_neg]
      exact congrArg Neg.neg (rounded_twoPow (e := 63) (by decide))
    rw [← whole, ← power]
    exact rounded_mono (by exact_mod_cast least)
  have upper : (k : ℚ) < 2 ^ 63 := by
    rw [← whole]
    rcases le_total 0 n with nonnegative | nonpositive
    · exact rounded_lt nonnegative small
    · have bound := rounded_mono (by exact_mod_cast nonpositive : (n : ℚ) ≤ 0)
      rw [rounded_zero] at bound
      exact bound.trans_lt (by positivity)
  have inRange : Whole.InRange k := by
    have lower : -2 ^ 63 ≤ k := by exact_mod_cast lower
    have upper : k < 2 ^ 63 := by exact_mod_cast upper
    unfold Whole.InRange Whole.least Whole.greatest
    omega
  obtain ⟨w, rfl⟩ := Whole.exists_toInt_eq inRange
  exact ⟨w, whole.symm⟩

end Greatest

end Calculator.Binary64
