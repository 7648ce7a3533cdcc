import Calculator.Proofs.Binary64.Operations

namespace Calculator.Binary64

open Float.Model.UnpackedFloat (Sign)

/-- A number that rounding does not change, nor makes too great. -/
def Representable (q : ℚ) : Prop := nearestReal? q = some q

variable {q a : ℚ} {m n e f : ℤ}

theorem Representable.rounded_eq (representable : Representable q) : rounded q = q := by
  unfold Representable nearestReal? at representable
  split at representable
  · exact Option.some.inj representable
  · cases representable

theorem representable_iff : Representable q ↔
    |q| < 2 ^ 1024 ∧ ∃ m e : ℤ, |m| < 2 ^ 53 ∧ -1074 ≤ e ∧ q = m * 2 ^ e := by
  constructor
  · intro representable
    unfold Representable nearestReal? at representable
    split at representable
    · rename_i small
      have same : rounded q = q := Option.some.inj representable
      rw [same] at small
      refine ⟨small, nearestEven (q / 2 ^ unitExponent q), unitExponent q, ?_, le_unitExponent q, same.symm⟩
      have unit := unit_pos (unitExponent q)
      have digits := lt_of_unitExponent q
      have split : q = nearestEven (q / 2 ^ unitExponent q) * 2 ^ unitExponent q := same.symm
      rw [split, abs_mul, abs_of_pos unit, ← split, zpow_add₀ two_ne_zero, mul_comm (2 ^ _)] at digits
      exact_mod_cast lt_of_mul_lt_mul_right digits unit.le
    · cases representable
  · rintro ⟨small, m, e, short, least, rfl⟩
    have same := rounded_of_short short.le least
    rw [Representable, nearestReal?, same, if_pos small]

theorem Representable.nearestReal?_of_abs_le (bound : Representable a) (small : |q| ≤ a) :
    nearestReal? q = some (rounded q) := by
  rw [nearestReal?, if_pos]
  calc |rounded q| = rounded |q| := abs_rounded q
    _ ≤ rounded a := rounded_mono small
    _ = a := bound.rounded_eq
    _ ≤ |a| := le_abs_self a
    _ < 2 ^ 1024 := (representable_iff.mp bound).1

theorem representable_one : Representable 1 := by
  rw [representable_iff, abs_one]
  exact ⟨one_lt_pow₀ one_lt_two (by decide), 1, 0, by norm_num, by norm_num, by norm_num⟩

theorem representable_of_short (short : |m| < 2 ^ 53) (least : -1074 ≤ e) (most : e ≤ 971) :
    Representable (m * 2 ^ e) := by
  refine representable_iff.mpr ⟨?_, m, e, short, least, rfl⟩
  rw [abs_mul, abs_of_pos (unit_pos e)]
  calc |(m : ℚ)| * 2 ^ e < 2 ^ 53 * 2 ^ e := mul_lt_mul_of_pos_right (by exact_mod_cast short) (unit_pos e)
    _ ≤ 2 ^ 53 * 2 ^ (971 : ℤ) := mul_le_mul_of_nonneg_left (zpow_le_zpow_right₀ one_le_two most) (by positivity)
    _ = 2 ^ 1024 := by rw [show (971 : ℤ) = (971 : ℕ) from rfl, zpow_natCast, ← pow_add]

theorem representable_signed {m : ℕ} (sign : Sign) (short : m < 2 ^ 53) (least : -1074 ≤ e) (most : e ≤ 971) :
    Representable ((sign.apply m : ℤ) * 2 ^ e) := by
  refine representable_of_short ?_ least most
  cases sign <;> simp [Sign.apply] <;> omega

theorem exactValue?_nearest_of_short {m : ℕ} (sign : Sign) (short : m < 2 ^ 53) (least : -1074 ≤ e) (most : e ≤ 971) :
    exactValue? (nearest sign m e) = some ((sign.apply m : ℤ) * 2 ^ e : ℚ) :=
  (exactValue?_nearest sign m e).trans (representable_signed sign short least most)

section Powers

theorem exists_odd (representable : Representable q) (nonzero : q ≠ 0) : ∃ m e : ℤ, Odd m ∧ q = m * 2 ^ e := by
  obtain ⟨-, m, e, -, -, rfl⟩ := representable_iff.mp representable
  have mantissa : m ≠ 0 := by
    rintro rfl
    exact nonzero (by rw [Int.cast_zero, zero_mul])
  have finite : FiniteMultiplicity 2 m := Int.finiteMultiplicity_iff.mpr ⟨by decide, mantissa⟩
  obtain ⟨k, split, odd⟩ := finite.exists_eq_pow_mul_and_not_dvd
  refine ⟨k, e + multiplicity 2 m, Int.not_even_iff_odd.mp fun even => odd even.two_dvd, ?_⟩
  rw [zpow_add₀ two_ne_zero, zpow_natCast]
  nth_rewrite 1 [split]
  push_cast
  ring

/-- An odd number times a power of two has no shorter form, and none with a greater exponent. -/
theorem le_of_odd (odd : Odd m) (same : (m * 2 ^ e : ℚ) = n * 2 ^ f) : f ≤ e ∧ |m| ≤ |n| := by
  have exponents : f ≤ e := by
    by_contra coarse
    obtain ⟨k, rfl⟩ := Int.exists_add_of_le (Int.add_one_le_of_lt (not_le.mp coarse))
    have even : (m : ℚ) = (n * 2 ^ k * 2 : ℤ) := by
      apply mul_right_cancel₀ (unit_pos e).ne'
      rw [same, zpow_add₀ two_ne_zero, zpow_add_one₀ two_ne_zero, zpow_natCast]
      push_cast
      ring
    rw [Int.cast_inj] at even
    exact Int.not_even_iff_odd.mpr odd ⟨n * 2 ^ k, by omega⟩
  obtain ⟨k, rfl⟩ := Int.exists_add_of_le exponents
  have mantissas : ((m * 2 ^ k : ℤ) : ℚ) = n := by
    apply mul_right_cancel₀ (unit_pos f).ne'
    rw [← same, zpow_add₀ two_ne_zero, zpow_natCast]
    push_cast
    ring
  have longer : |m| * 1 ≤ |m| * 2 ^ k := mul_le_mul_of_nonneg_left (one_le_pow₀ one_le_two) (abs_nonneg m)
  rw [← Int.cast_inj.mp mantissas, abs_mul, abs_of_pos (by positivity : (0 : ℤ) < 2 ^ k)]
  exact ⟨exponents, by linarith⟩

theorem abs_pow_lt_of_le {k n : ℕ} (small : |q| ^ n < 2 ^ 1024) (ordered : k ≤ n) : |q| ^ k < 2 ^ 1024 := by
  by_cases large : 1 ≤ |q|
  · exact (pow_le_pow_right₀ large ordered).trans_lt small
  · exact (pow_le_one₀ (abs_nonneg q) (not_le.mp large).le).trans_lt (one_lt_pow₀ one_lt_two (by decide))

theorem scaled_pow (m e : ℤ) (j : ℕ) : (m * 2 ^ e : ℚ) ^ j = (m ^ j : ℤ) * 2 ^ (e * j) := by
  rw [mul_pow, zpow_mul, zpow_natCast]
  push_cast
  rfl

theorem least_le_mul {k n : ℕ} (least : -1074 ≤ e * n) (ordered : k ≤ n) : -1074 ≤ e * k := by
  by_cases whole : 0 ≤ e
  · have exponent : 0 ≤ e * k := mul_nonneg whole (Int.natCast_nonneg k)
    omega
  · have exponent : e * n ≤ e * k := mul_le_mul_of_nonpos_left (by exact_mod_cast ordered) (by omega)
    omega

theorem Representable.pow_of_le {k n : ℕ} (base : Representable a) (power : Representable (a ^ n)) (ordered : k ≤ n) :
    Representable (a ^ k) := by
  by_cases first : k = 0
  · rw [first, pow_zero]
    exact representable_one
  by_cases zero : a = 0
  · rw [zero, zero_pow first]
    exact nearestReal?_zero
  obtain ⟨m, e, odd, rfl⟩ := exists_odd base zero
  obtain ⟨small, n', f, short, least, same⟩ := representable_iff.mp power
  obtain ⟨exponents, mantissas⟩ := le_of_odd odd.pow (scaled_pow m e n ▸ same)
  have unit : 1 ≤ |m| := by
    apply Int.one_le_abs
    rintro rfl
    exact absurd odd (by decide)
  rw [abs_pow] at small mantissas
  rw [representable_iff, abs_pow]
  refine ⟨abs_pow_lt_of_le small ordered, m ^ k, e * k, ?_, least_le_mul (least.trans exponents) ordered,
    scaled_pow m e k⟩
  rw [abs_pow]
  exact ((pow_le_pow_right₀ unit ordered).trans mantissas).trans_lt short

end Powers

end Calculator.Binary64
