import Calculator.Proofs.Binary64.Comparison
import Calculator.Proofs.Binary64.Representable

namespace Calculator.Binary64

variable {x : Float} {q : ℚ} {k : ℤ}

theorem Representable.scaled (representable : Representable q) (small : |q * 2 ^ k| < 2 ^ 1024)
    (fine : 0 ≤ k ∨ 2 ^ (-1022 : ℤ) ≤ |q * 2 ^ k|) : Representable (q * 2 ^ k) := by
  obtain ⟨-, m, e, short, least, rfl⟩ := representable_iff.mp representable
  rw [mul_assoc, ← zpow_add₀ two_ne_zero] at small fine ⊢
  refine representable_iff.mpr ⟨small, m, e + k, short, ?_, rfl⟩
  rcases fine with upward | normal
  · omega
  · -- a short mantissa with a smaller exponent is subnormal
    by_contra below
    apply normal.not_gt
    rw [abs_mul, abs_of_pos (unit_pos _)]
    calc |(m : ℚ)| * 2 ^ (e + k) < 2 ^ (53 : ℤ) * 2 ^ (e + k) :=
          mul_lt_mul_of_pos_right (by exact_mod_cast short) (unit_pos _)
      _ = 2 ^ (53 + (e + k)) := (zpow_add₀ two_ne_zero _ _).symm
      _ ≤ 2 ^ (-1022 : ℤ) := zpow_le_zpow_right₀ one_le_two (by omega)

theorem representable_of_abs_le {m e : ℤ} (short : |m| ≤ 2 ^ 53) (least : -1074 ≤ e) (small : |(m * 2 ^ e : ℚ)| < 2 ^ 1024) :
    Representable (m * 2 ^ e) := by
  have same := rounded_of_short short least
  rw [Representable, nearestReal?, same, if_pos small]

theorem Representable.exists_multiple {e : ℤ} (representable : Representable q) (great : 2 ^ (e + 52) ≤ |q|) :
    ∃ n : ℤ, q = n * 2 ^ e := by
  obtain ⟨-, m, f, short, -, form⟩ := representable_iff.mp representable
  have digits : (2 : ℚ) ^ (e + 52) < 2 ^ (53 + f) := by
    calc (2 : ℚ) ^ (e + 52) ≤ |q| := great
      _ = |(m : ℚ)| * 2 ^ f := by rw [form, abs_mul, abs_of_pos (unit_pos f)]
      _ < 2 ^ (53 : ℤ) * 2 ^ f := mul_lt_mul_of_pos_right (by exact_mod_cast short) (unit_pos f)
      _ = 2 ^ (53 + f) := (zpow_add₀ two_ne_zero _ _).symm
  rw [zpow_lt_zpow_iff_right₀ one_lt_two] at digits
  obtain ⟨n, units⟩ := multiple_div_unit m (by omega : e ≤ f)
  exact ⟨n, by rw [form, ← units, div_mul_cancel₀ _ (unit_pos e).ne']⟩

theorem Representable.add_unit {e : ℤ} (representable : Representable q) (lower : 2 ^ (e + 52) ≤ q)
    (upper : q < 2 ^ (e + 53)) (least : -1074 ≤ e) (most : e ≤ 970) : Representable (q + 2 ^ e) := by
  have unit := unit_pos e
  have power (j : ℤ) : (2 : ℚ) ^ (e + j) = 2 ^ j * 2 ^ e := by rw [add_comm, zpow_add₀ two_ne_zero]
  obtain ⟨n, rfl⟩ := representable.exists_multiple (lower.trans (le_abs_self q))
  rw [power] at lower upper
  have long : (2 : ℤ) ^ 52 ≤ n := by exact_mod_cast le_of_mul_le_mul_right lower unit
  have short : n < (2 : ℤ) ^ 53 := by exact_mod_cast lt_of_mul_lt_mul_right upper unit.le
  have next : (n * 2 ^ e + 2 ^ e : ℚ) = (n + 1 : ℤ) * 2 ^ e := by
    push_cast
    ring
  rw [next]
  refine representable_of_abs_le (abs_le.mpr ⟨by omega, by omega⟩) least ?_
  rw [abs_mul, abs_of_pos unit]
  calc |((n + 1 : ℤ) : ℚ)| * 2 ^ e ≤ 2 ^ (53 : ℤ) * 2 ^ e := by
        refine mul_le_mul_of_nonneg_right ?_ unit.le
        exact_mod_cast abs_le.mpr ⟨by omega, by omega⟩
    _ = 2 ^ (53 + e) := (zpow_add₀ two_ne_zero _ _).symm
    _ ≤ 2 ^ (1023 : ℤ) := zpow_le_zpow_right₀ one_le_two (by omega)
    _ = 2 ^ 1023 := zpow_natCast 2 1023
    _ < 2 ^ 1024 := pow_lt_pow_right₀ one_lt_two (by decide)

section Rounding

theorem unitExponent_eq {e : ℤ} (lower : 2 ^ (e + 52) ≤ |q|) (upper : |q| < 2 ^ (e + 53)) (least : -1074 ≤ e) :
    unitExponent q = e := by
  have nonzero : q ≠ 0 := abs_pos.mp ((unit_pos _).trans_le lower)
  refine (unitExponent_le nonzero upper least).antisymm ?_
  have powers := (zpow_lt_zpow_iff_right₀ one_lt_two).mp (lower.trans_lt (lt_of_unitExponent q))
  omega

/-- Rounding does not depend on the exponent of a number that is normal with both exponents. -/
theorem rounded_scaled (normal : 2 ^ (-1022 : ℤ) ≤ |q|) (normal' : 2 ^ (-1022 : ℤ) ≤ |q * 2 ^ k|) :
    rounded (q * 2 ^ k) = rounded q * 2 ^ k := by
  have nonzero : q ≠ 0 := abs_pos.mp ((unit_pos _).trans_le normal)
  have magnitude : |q * 2 ^ k| = |q| * 2 ^ k := by rw [abs_mul, abs_of_pos (unit_pos k)]
  have lower : 2 ^ (unitExponent q + 52) ≤ |q| := by
    rcases (le_unitExponent q).eq_or_lt with least | above
    · rwa [← least]
    · exact le_of_unitExponent nonzero above
  have scaled : 2 ^ (unitExponent q + k + 52) ≤ |q * 2 ^ k| := by
    rw [magnitude, add_right_comm, zpow_add₀ two_ne_zero]
    exact mul_le_mul_of_nonneg_right lower (unit_pos k).le
  have scaled' : |q * 2 ^ k| < 2 ^ (unitExponent q + k + 53) := by
    rw [magnitude, add_right_comm, zpow_add₀ two_ne_zero]
    exact mul_lt_mul_of_pos_right (lt_of_unitExponent q) (unit_pos k)
  have least := (zpow_lt_zpow_iff_right₀ one_lt_two).mp (normal'.trans_lt scaled')
  rw [rounded, unitExponent_eq scaled scaled' (by omega), zpow_add₀ two_ne_zero,
    mul_div_mul_right _ _ (unit_pos k).ne', ← mul_assoc, rounded]

/-- A power of two swallows whatever is at most half a unit of its last digit. -/
theorem rounded_le_twoPow (least : -1000 ≤ k) (small : q ≤ 2 ^ k + 2 ^ (k - 53)) : rounded q ≤ 2 ^ k := by
  have normal : (2 : ℚ) ^ (-1022 : ℤ) ≤ 2 ^ k := zpow_le_zpow_right₀ one_le_two (by omega)
  have sum : (2 : ℚ) ^ k + 2 ^ (k - 53) = (1 + 1 / 2 ^ 53) * 2 ^ k := by
    rw [zpow_sub₀ two_ne_zero]
    norm_num
    ring
  have scaled : |(1 + 1 / 2 ^ 53 : ℚ) * 2 ^ k| = (1 + 1 / 2 ^ 53) * 2 ^ k :=
    abs_of_pos (mul_pos (by norm_num) (unit_pos k))
  have exact : rounded (1 + 1 / 2 ^ 53) = 1 := by decide +kernel
  calc rounded q ≤ rounded ((1 + 1 / 2 ^ 53) * 2 ^ k) := rounded_mono (small.trans_eq sum)
    _ = rounded (1 + 1 / 2 ^ 53) * 2 ^ k := by
      refine rounded_scaled ?_ ?_
      · rw [abs_of_pos (by norm_num)]
        exact (zpow_le_one_of_nonpos₀ one_le_two (by norm_num)).trans (by norm_num)
      · rw [scaled]
        exact normal.trans (le_mul_of_one_le_left (unit_pos k).le (by norm_num))
    _ = 2 ^ k := by rw [exact, one_mul]

end Rounding

theorem Representable.twoPow_le (representable : Representable q) (positive : 0 < q) : 2 ^ (-1074 : ℤ) ≤ q := by
  obtain ⟨-, m, e, -, least, rfl⟩ := representable_iff.mp representable
  have counted : (1 : ℚ) ≤ m := by exact_mod_cast pos_of_mul_pos_left positive (Binary64.unit_pos e).le
  calc (2 : ℚ) ^ (-1074 : ℤ) ≤ 2 ^ e := zpow_le_zpow_right₀ one_le_two least
    _ ≤ m * 2 ^ e := le_mul_of_one_le_left (unit_pos e).le counted

theorem representable_of_exactValue? (known : exactValue? x = some q) : Representable q :=
  nearestReal?_of_exactValue? known

theorem exists_sub_le {y : Float} {p : ℚ} (known : exactValue? x = some q) (taken : exactValue? y = some p)
    (nonnegative : 0 ≤ q) (nonnegative' : 0 ≤ p) : ∃ t, exactValue? (x - y) = some t ∧ t ≤ q := by
  have representable : Representable (max q p) := by
    rcases max_choice q p with left | right
    · rw [left]
      exact representable_of_exactValue? known
    · rw [right]
      exact representable_of_exactValue? taken
  have bound : |q - p| ≤ max q p := by
    rw [abs_le]
    constructor <;> linarith [le_max_left q p, le_max_right q p]
  refine ⟨_, (exactValue?_sub known taken).trans (representable.nearestReal?_of_abs_le bound), ?_⟩
  calc rounded (q - p) ≤ rounded q := rounded_mono (by linarith)
    _ = q := (representable_of_exactValue? known).rounded_eq

theorem exactValue?_two : exactValue? 2 = some 2 := toInt?_eq_some_iff.mp (by rfl : toInt? 2 = some 2)

theorem exactValue?_double (known : exactValue? x = some q) (small : |q * 2| < 2 ^ 1024) :
    exactValue? (x * 2) = some (q * 2) := by
  have scaled : Representable (q * 2 ^ (1 : ℤ)) :=
    (representable_of_exactValue? known).scaled (by rwa [zpow_one]) (.inl zero_le_one)
  rw [zpow_one] at scaled
  rw [exactValue?_mul known exactValue?_two, scaled]

theorem exactValue?_half (known : exactValue? x = some q) (normal : 2 ^ (-1022 : ℤ) ≤ |q / 2|) :
    exactValue? (x / 2) = some (q / 2) := by
  have half : q / 2 = q * 2 ^ (-1 : ℤ) := by rw [zpow_neg_one, div_eq_mul_inv]
  have small : |q / 2| < 2 ^ 1024 := by
    rw [abs_div, abs_two]
    exact (half_le_self (abs_nonneg q)).trans_lt (representable_iff.mp (representable_of_exactValue? known)).1
  rw [half] at normal small
  rw [exactValue?_div known exactValue?_two two_ne_zero, half]
  exact (representable_of_exactValue? known).scaled small (.inr normal)

end Calculator.Binary64
