import Calculator.Proofs.Binary64.Scaling

namespace Calculator.Binary64

variable {p q r s : ℚ} {n : ℤ}

section WholeNumbers

theorem nearestEven_of_abs_sub_lt (close : |n - q| < 1 / 2) : nearestEven q = n := by
  have near := abs_nearestEven_sub_le q
  have apart : |((nearestEven q - n : ℤ) : ℚ)| < 1 := by
    push_cast
    rw [abs_sub_comm] at close
    linarith [abs_sub_le (nearestEven q : ℚ) q n]
  have none : |nearestEven q - n| < 1 := by exact_mod_cast apart
  rw [Int.abs_lt_one_iff] at none
  omega

theorem abs_nearestEven_sub_le_abs (q : ℚ) (n : ℤ) : |nearestEven q - q| ≤ |n - q| := by
  rcases lt_or_ge |n - q| (1 / 2) with close | far
  · rw [nearestEven_of_abs_sub_lt close]
  · exact (abs_nearestEven_sub_le q).trans far

theorem nearestEven_add_half (n : ℤ) : nearestEven (n + 1 / 2) = n + n % 2 := by
  have floor : ⌊(n + 1 / 2 : ℚ)⌋ = n := by
    rw [Int.floor_eq_iff]
    constructor <;> linarith
  rw [nearestEven, floor, if_neg (by linarith), if_neg (by linarith)]

theorem nearestEven_eq_iff_even (half : |n - q| = 1 / 2) : nearestEven q = n ↔ Even n := by
  rw [Int.even_iff]
  rcases abs_eq (by norm_num) |>.mp half with below | above
  · have value : q = (n - 1 : ℤ) + 1 / 2 := by
      push_cast
      linarith
    rw [value, nearestEven_add_half]
    omega
  · have value : q = n + 1 / 2 := by linarith
    rw [value, nearestEven_add_half]
    omega

theorem nearestEven_of_closer (nearest : nearestEven q = n) (closer : |n - p| ≤ |n - q|) : nearestEven p = n := by
  have bound := abs_nearestEven_sub_le q
  rw [nearest] at bound
  rcases (closer.trans bound).lt_or_eq with close | half
  · exact nearestEven_of_abs_sub_lt close
  · have tie : |n - q| = 1 / 2 := le_antisymm bound (half ▸ closer)
    exact (nearestEven_eq_iff_even half).mpr ((nearestEven_eq_iff_even tie).mp nearest)

end WholeNumbers

theorem abs_div_sub (positive : 0 < s) (c k : ℚ) : |c / s - k| = |c - k * s| / s := by
  rw [← abs_of_pos positive, ← abs_div, abs_of_pos positive, sub_div, mul_div_cancel_right₀ _ positive.ne']

section Reals

theorem abs_rounded_sub_le_abs_multiple {e : ℤ} (coarse : unitExponent q ≤ e) : |rounded q - q| ≤ |n * 2 ^ e - q| := by
  have unit := unit_pos (unitExponent q)
  obtain ⟨m, units⟩ := multiple_div_unit n coarse
  have closest := abs_nearestEven_sub_le_abs (q / 2 ^ unitExponent q) m
  rw [abs_sub_comm, abs_div_sub unit, abs_sub_comm (m : ℚ), abs_div_sub unit, div_le_div_iff_of_pos_right unit] at closest
  rw [div_eq_iff unit.ne'] at units
  rwa [units, rounded, abs_sub_comm, abs_sub_comm _ q]

/-- Where the reals around a number have the unit of this or a greater one, they are multiples of it, and all others are
beyond a power of two. -/
theorem abs_rounded_sub_le_abs (representable : Representable r) : |rounded q - q| ≤ |r - q| := by
  rcases eq_or_ne q 0 with rfl | nonzero
  · rw [rounded_zero, sub_zero, abs_zero]
    exact abs_nonneg _
  obtain ⟨-, m, e, short, least, rfl⟩ := representable_iff.mp representable
  rcases le_or_gt (unitExponent q) e with coarse | fine
  · exact abs_rounded_sub_le_abs_multiple coarse
  have large := le_of_unitExponent nonzero (by omega)
  have small : |(m * 2 ^ e : ℚ)| ≤ 2 ^ (unitExponent q + 52) := by
    rw [abs_mul, abs_of_pos (unit_pos e)]
    calc |(m : ℚ)| * 2 ^ e ≤ 2 ^ (53 : ℤ) * 2 ^ e :=
          mul_le_mul_of_nonneg_right (by exact_mod_cast short.le) (unit_pos e).le
      _ = 2 ^ (53 + e) := (zpow_add₀ two_ne_zero _ _).symm
      _ ≤ 2 ^ (unitExponent q + 52) := zpow_le_zpow_right₀ one_le_two (by omega)
  have power : |rounded q - q| ≤ |q| - 2 ^ (unitExponent q + 52) := by
    rcases le_total 0 q with nonnegative | nonpositive
    · have near := abs_rounded_sub_le_abs_multiple (q := q) (n := 1) (e := unitExponent q + 52) (by omega)
      rw [abs_of_nonneg nonnegative] at large ⊢
      rwa [Int.cast_one, one_mul, abs_sub_comm (2 ^ _), abs_of_nonneg (sub_nonneg.mpr large)] at near
    · have near := abs_rounded_sub_le_abs_multiple (q := q) (n := -1) (e := unitExponent q + 52) (by omega)
      rw [abs_of_nonpos nonpositive] at large ⊢
      rwa [Int.cast_neg, Int.cast_one, neg_one_mul, neg_sub_comm, abs_of_nonneg (sub_nonneg.mpr large)] at near
  have triangle := abs_sub_abs_le_abs_sub q (m * 2 ^ e)
  rw [abs_sub_comm q] at triangle
  linarith

theorem rounded_of_closer (normal : 2 ^ (-1022 : ℤ) ≤ rounded q) (between : ∀ j : ℤ, rounded q ≠ 2 ^ j)
    (closer : |p - rounded q| ≤ |q - rounded q|) : rounded p = rounded q := by
  have unit := unit_pos (unitExponent q)
  have least := le_unitExponent q
  generalize exponent : unitExponent q = e at unit least
  generalize mantissa : nearestEven (q / 2 ^ e) = k
  have value : rounded q = k * 2 ^ e := by rw [rounded, exponent, mantissa]
  have power (j : ℤ) : (2 : ℚ) ^ (e + j) = 2 ^ j * 2 ^ e := by rw [add_comm, zpow_add₀ two_ne_zero]
  have long : 2 ^ 52 < k := by
    have bound : 2 ^ (e + 52) ≤ rounded q := by
      rcases least.eq_or_lt with same | above
      · rwa [← same]
      · have nonzero : q ≠ 0 := by
          rintro rfl
          exact ((unit_pos _).trans_le normal).ne' rounded_zero
        have large := le_abs_rounded (by omega) (exponent ▸ le_of_unitExponent nonzero (exponent.symm ▸ above))
        rwa [abs_of_pos ((unit_pos _).trans_le normal)] at large
    have apart := lt_of_le_of_ne bound (between _).symm
    rw [value, power] at apart
    exact_mod_cast lt_of_mul_lt_mul_right apart unit.le
  have short : k < 2 ^ 53 := by
    have bound := abs_rounded_le (by omega) (exponent ▸ (lt_of_unitExponent q).le)
    have apart := lt_of_le_of_ne ((le_abs_self _).trans bound) (between _)
    rw [value, power] at apart
    exact_mod_cast lt_of_mul_lt_mul_right apart unit.le
  have closer' : |k - p / 2 ^ e| ≤ |k - q / 2 ^ e| := by
    rw [abs_sub_comm, abs_div_sub unit, abs_sub_comm (k : ℚ), abs_div_sub unit, ← value]
    exact div_le_div_of_nonneg_right closer unit.le
  -- half a unit from a mantissa that is not the first nor the last of its length, no other unit is reached
  have same : unitExponent p = e := by
    have near := abs_nearestEven_sub_le (q / 2 ^ e)
    rw [mantissa] at near
    obtain ⟨lower, upper⟩ := abs_le.mp (closer'.trans near)
    have first : ((2 ^ 52 + 1 : ℤ) : ℚ) ≤ k := by exact_mod_cast long
    have last : (k : ℚ) ≤ (2 ^ 53 - 1 : ℤ) := by exact_mod_cast Int.le_sub_one_of_lt short
    push_cast at first last
    have above : 2 ^ 52 ≤ p / 2 ^ e := by linarith
    have below : p / 2 ^ e < 2 ^ 53 := by linarith
    rw [le_div_iff₀ unit] at above
    rw [div_lt_iff₀ unit] at below
    have positive : 0 < p := lt_of_lt_of_le (by positivity) above
    refine unitExponent_eq ?_ ?_ least
    · rw [abs_of_pos positive, power]
      exact above
    · rw [abs_of_pos positive, power]
      exact below
  rw [rounded, same, nearestEven_of_closer mantissa closer', value]

/-- The product is the real that is closest to the exact one, so its quotient is no farther from `rounded (p / s)` than
`p / s` is. -/
theorem rounded_mul_div (representable : Representable p) (positive : 0 < s) (normal : 2 ^ (-1022 : ℤ) ≤ rounded (p / s))
    (scale : ∀ j : ℤ, rounded (p / s) = 2 ^ j → rounded (2 ^ j * s) = 2 ^ j * s) :
    rounded (rounded (rounded (p / s) * s) / s) = rounded (p / s) := by
  by_cases power : ∃ j : ℤ, rounded (p / s) = 2 ^ j
  · obtain ⟨j, same⟩ := power
    rw [same, scale j same, mul_div_cancel_right₀ _ positive.ne']
    exact rounded_twoPow (by
      rw [same, zpow_le_zpow_iff_right₀ one_lt_two] at normal
      omega)
  · refine rounded_of_closer normal (fun j same => power ⟨j, same⟩) ?_
    have closest := abs_rounded_sub_le_abs (q := rounded (p / s) * s) representable
    rw [abs_div_sub positive, abs_div_sub positive]
    exact div_le_div_of_nonneg_right closest positive.le

end Reals

end Calculator.Binary64
