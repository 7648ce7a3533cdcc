import Calculator.Elementary.Power
import Calculator.Proofs.Binary64.Squaring

namespace Calculator

open Binary64 (toInt? exactValue? natPow abs)
open Float.Model.UnpackedFloat (Sign)

namespace Elementary

variable {x x' y y' : Float} {a b : ℚ} {i j : ℤ}

theorem finite_of_exactValue? (known : exactValue? x = some a) : finite x = .ok x :=
  if_pos (Binary64.isFinite_iff_exactValue?.mpr ⟨a, known⟩)

section Branches

theorem power_of_whole_exponent (exponent : toInt? y = some j) (bound : j.natAbs ≤ maxIntegerExponent) (x : Float) :
    power x y = integerPower x j := by
  unfold power
  simp only [exponent]
  exact if_pos bound

theorem power_of_great_exponent (exponent : toInt? y = some j) (great : ¬ j.natAbs ≤ maxIntegerExponent) (x : Float) :
    power x y = realPower (abs x) y := by
  unfold power
  simp only [exponent]
  exact if_neg great

theorem power_of_fraction (exponent : toInt? y = none) (x : Float) :
    power x y = if x < 0 then .error .complexResult else realPower x y := by
  unfold power
  simp only [exponent]

/-- A whole exponent that is not negative, up to 2 ^ 53 - 1, is reached by repeated squaring. -/
theorem power_of_natural {n : ℕ} (exponent : toInt? y = some (n : ℤ)) (bound : n ≤ maxIntegerExponent) (x : Float) :
    power x y = finite (natPow x n) := by
  rw [power_of_whole_exponent exponent bound, integerPower, if_neg (Int.natCast_nonneg n).not_gt, Int.natAbs_natCast]

end Branches

theorem power_of_whole (base : toInt? x = some i) (exponent : toInt? y = some j) (nonnegative : 0 ≤ j)
    (bound : j.natAbs ≤ maxIntegerExponent) (short : |i ^ j.toNat| ≤ 2 ^ 53) :
    ∃ z, power x y = .ok z ∧ toInt? z = some (i ^ j.toNat) := by
  have magnitude : j.natAbs = j.toNat := by omega
  have natural : toInt? y = some (j.toNat : ℤ) := by rw [exponent, Int.toNat_of_nonneg nonnegative]
  have whole := Binary64.toInt?_natPow base short
  refine ⟨natPow x j.toNat, ?_, whole⟩
  rw [power_of_natural natural (magnitude ▸ bound), finite_of_exactValue? (Binary64.toInt?_eq_some_iff.mp whole)]

theorem power_zero (zero : exactValue? y = some 0) (x : Float) : power x y = .ok 1 := by
  have natural : toInt? y = some ((0 : ℕ) : ℤ) := Binary64.toInt?_eq_some_iff.mpr zero
  have one : natPow x 0 = 1 := Binary64.mulPow_zero 1 x
  rw [power_of_natural natural (Nat.zero_le _), one]
  exact finite_of_exactValue? Binary64.exactValue?_ofNat_one

section ZeroBase

variable (zero : exactValue? x = some 0) (zero' : exactValue? x' = some 0)

include zero in
theorem realPower_zero_base (y : Float) : realPower x y = if y > 0 then .ok 0 else .error .divisionByZero := by
  have notPositive : ¬ x > 0 := fun positive => lt_irrefl _ ((Binary64.zero_lt_iff zero).mp positive)
  rw [realPower, if_neg notPositive]

include zero in
theorem exactValue?_natPow_zero_base (n : ℕ) : exactValue? (natPow x n) = some (0 ^ n) := by
  apply Binary64.exactValue?_natPow zero
  by_cases first : n = 0
  · rw [first, pow_zero]
    exact Binary64.representable_one
  · rw [zero_pow first]
    exact Binary64.nearestReal?_zero

include zero zero'

theorem integerPower_zero_base (n : ℤ) :
    (integerPower x n).map exactValue? = (integerPower x' n).map exactValue? := by
  unfold integerPower
  split
  · rw [if_pos ((Binary64.beq_zero_iff zero).mpr rfl), if_pos ((Binary64.beq_zero_iff zero').mpr rfl)]
  · have value := exactValue?_natPow_zero_base zero n.natAbs
    have value' := exactValue?_natPow_zero_base zero' n.natAbs
    rw [finite_of_exactValue? value, finite_of_exactValue? value']
    exact congrArg Except.ok (value.trans value'.symm)

theorem power_zero_base (y : Float) : (power x y).map exactValue? = (power x' y).map exactValue? := by
  cases exponent : toInt? y with
  | some n =>
    by_cases bound : n.natAbs ≤ maxIntegerExponent
    · rw [power_of_whole_exponent exponent bound, power_of_whole_exponent exponent bound]
      exact integerPower_zero_base zero zero' n
    · have magnitude := Binary64.exactValue?_abs zero
      have magnitude' := Binary64.exactValue?_abs zero'
      rw [abs_zero] at magnitude magnitude'
      rw [power_of_great_exponent exponent bound, power_of_great_exponent exponent bound,
        realPower_zero_base magnitude, realPower_zero_base magnitude']
  | none =>
    have notNegative : ¬ x < 0 := fun negative => lt_irrefl _ ((Binary64.lt_zero_iff zero).mp negative)
    have notNegative' : ¬ x' < 0 := fun negative => lt_irrefl _ ((Binary64.lt_zero_iff zero').mp negative)
    rw [power_of_fraction exponent, power_of_fraction exponent, if_neg notNegative, if_neg notNegative',
      realPower_zero_base zero, realPower_zero_base zero']

end ZeroBase

theorem power_congr (base : exactValue? x = some a) (base' : exactValue? x' = some a)
    (exponent : exactValue? y = some b) (exponent' : exactValue? y' = some b) :
    (power x y).map exactValue? = (power x' y').map exactValue? := by
  rcases Binary64.eq_or_zero_of_exactValue? exponent exponent' with rfl | rfl
  · rcases Binary64.eq_or_zero_of_exactValue? base base' with rfl | rfl
    · rfl
    · exact power_zero_base base base' y
  · rw [power_zero exponent, power_zero exponent']

/-- Wherever the exact power is a real, repeated squaring arrives at it: none of the products on the way is rounded. -/
theorem power_exact {z : Float} {n : ℕ} (base : exactValue? x = some a) (exponent : exactValue? y = some (n : ℚ))
    (bound : n ≤ maxIntegerExponent) (real : exactValue? z = some (a ^ n)) :
    ∃ w, power x y = .ok w ∧ exactValue? w = some (a ^ n) := by
  have natural : toInt? y = some (n : ℤ) := Binary64.toInt?_eq_some_iff.mpr exponent
  have exact := Binary64.exactValue?_natPow base (Binary64.nearestReal?_of_exactValue? real)
  refine ⟨natPow x n, ?_, exact⟩
  rw [power_of_natural natural bound, finite_of_exactValue? exact]

/-- A negative base whose 21st power is subnormal and ends at the 1071st binary place. -/
theorem power_exact_subnormal :
    exactValue? (Binary64.nearest .negative 3 (-51)) = some (-3 * 2 ^ (-51 : ℤ)) ∧
      exactValue? 21 = some ((21 : ℕ) : ℚ) ∧ 21 ≤ maxIntegerExponent ∧
      exactValue? (Binary64.nearest .negative (3 ^ 21) (-1071)) = some ((-3 * 2 ^ (-51 : ℤ)) ^ 21) ∧
      ∃ w, power (Binary64.nearest .negative 3 (-51)) 21 = .ok w ∧
        exactValue? w = some ((-3 * 2 ^ (-51 : ℤ)) ^ 21) := by
  have base : exactValue? (Binary64.nearest .negative 3 (-51)) = some (-3 * 2 ^ (-51 : ℤ)) := by
    rw [Binary64.exactValue?_nearest_of_short .negative (by decide) (by decide) (by decide)]
    norm_num [Sign.apply]
  have exponent : exactValue? 21 = some ((21 : ℕ) : ℚ) := Binary64.toInt?_eq_some_iff.mp (by decide)
  have real : exactValue? (Binary64.nearest .negative (3 ^ 21) (-1071)) = some ((-3 * 2 ^ (-51 : ℤ)) ^ 21) := by
    rw [Binary64.exactValue?_nearest_of_short .negative (by decide) (by decide) (by decide), mul_pow,
      ← zpow_natCast (2 ^ (-51 : ℤ)), ← zpow_mul]
    norm_num [Sign.apply]
  exact ⟨base, exponent, by decide, real, power_exact base exponent (by decide) real⟩

end Elementary

end Calculator
