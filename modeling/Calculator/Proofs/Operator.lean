import Calculator.Proofs.Binary64.WholeNumbers
import Calculator.Proofs.Elementary.Exponential
import Calculator.Proofs.Expr.Exact
import Calculator.Proofs.Value

namespace Calculator

open Binary64 (toInt?)
open Elementary (power maxIntegerExponent)

namespace Operator

variable {b e n : Int64}

theorem apply_pow_small (nonnegative : 0 ≤ e.toInt) (fits : n.toInt = b.toInt ^ e.toInt.toNat)
    (short : e.toInt < exponentBound) : Operator.pow.apply (.integer b) (.integer e) = .ok (.integer n) := by
  rw [apply_eq_integer_iff]
  change pow.onWhole? b e = some n
  rw [onWhole?_eq_some_iff, exactValue?, if_pos nonnegative, fits]
  exact ⟨rfl, fun _ => short⟩

theorem apply_pow_great (great : exponentBound ≤ e.toInt) :
    Operator.pow.apply (.integer b) (.integer e) =
      (power (Value.integer b).toReal (Value.integer e).toReal).map .real := by
  have past : pow.wholeResult? (.integer b) (.integer e) = none := if_neg fun inside => great.not_gt inside.2
  rw [apply, past]
  rfl

theorem natAbs_base_le (fits : n.toInt = b.toInt ^ e.toInt.toNat) (great : exponentBound ≤ e.toInt) :
    b.toInt.natAbs ≤ 1 := by
  unfold exponentBound at great
  have inRange := Whole.inRange_toInt n
  rw [fits] at inRange
  by_contra large
  exact Whole.not_inRange_pow (by omega) (by omega) inRange

theorem abs_power_eq (fits : n.toInt = b.toInt ^ e.toInt.toNat) (great : exponentBound ≤ e.toInt) :
    |n.toInt| = |b.toInt| := by
  have small := natAbs_base_le fits great
  unfold exponentBound at great
  have positive : e.toInt.toNat ≠ 0 := by omega
  have units : b.toInt = 0 ∨ b.toInt = 1 ∨ b.toInt = -1 := by omega
  rw [fits, abs_pow]
  rcases units with zero | one | negative
  · rw [zero, abs_zero, zero_pow positive]
  · rw [one, abs_one, one_pow]
  · rw [negative, abs_neg, abs_one, one_pow]

theorem toInt?_base (fits : n.toInt = b.toInt ^ e.toInt.toNat) (great : exponentBound ≤ e.toInt) :
    toInt? (Value.integer b).toReal = some b.toInt := by
  have small := natAbs_base_le fits great
  apply Binary64.toInt?_ofInt64
  rw [Int.abs_eq_natAbs]
  omega

theorem power_of_short_exponent (nonnegative : 0 ≤ e.toInt) (fits : n.toInt = b.toInt ^ e.toInt.toNat)
    (great : exponentBound ≤ e.toInt) (short : e.toInt < 2 ^ 53) :
    ∃ r, power (Value.integer b).toReal (Value.integer e).toReal = .ok r ∧
      Binary64.exactValue? r = some (n.toInt : ℚ) := by
  have exponent : toInt? (Value.integer e).toReal = some e.toInt := by
    apply Binary64.toInt?_ofInt64
    rw [abs_of_nonneg nonnegative]
    exact short.le
  have bound : e.toInt.natAbs ≤ maxIntegerExponent := by
    unfold maxIntegerExponent
    omega
  have unit : |b.toInt ^ e.toInt.toNat| ≤ 2 ^ 53 := by
    have small := natAbs_base_le fits great
    rw [← fits, abs_power_eq fits great, Int.abs_eq_natAbs]
    omega
  obtain ⟨r, result, value⟩ := Elementary.power_of_whole (toInt?_base fits great) exponent nonnegative bound unit
  rw [← fits, Binary64.toInt?_eq_some_iff] at value
  exact ⟨r, result, value⟩

theorem power_of_long_exponent (fits : n.toInt = b.toInt ^ e.toInt.toNat) (long : 2 ^ 53 ≤ e.toInt) :
    ∃ r, power (Value.integer b).toReal (Value.integer e).toReal = .ok r ∧
      Binary64.exactValue? r = some (|n.toInt| : ℚ) := by
  have great : exponentBound ≤ e.toInt := by
    unfold exponentBound
    omega
  have base := Binary64.exactValue?_abs (Binary64.toInt?_eq_some_iff.mp (toInt?_base fits great))
  have exponent := Value.exactValue?_toReal_rounded (v := .integer e) rfl
  obtain ⟨k, bound, whole⟩ := Binary64.exists_int_rounded_of_long long
  rw [whole] at exponent
  have beyond : ¬ k.natAbs ≤ maxIntegerExponent := by
    unfold maxIntegerExponent
    omega
  have positive : (0 : ℚ) < k := by exact_mod_cast (by omega : 0 < k)
  have units : |b.toInt| = 0 ∨ |b.toInt| = 1 := by
    have small := natAbs_base_le fits great
    rw [Int.abs_eq_natAbs]
    omega
  rw [Elementary.power_of_great_exponent (Binary64.toInt?_eq_some_iff.mpr exponent) beyond, ← Int.cast_abs,
    abs_power_eq fits great, Int.cast_abs]
  exact Elementary.realPower_of_unit base (by exact_mod_cast units) exponent positive

/-- A power that fits is exact if its exponent has 32 bits. With any greater exponent it is a real instead. -/
theorem eval_pow_of_fits (position : ℕ) (nonnegative : 0 ≤ e.toInt) (fits : n.toInt = b.toInt ^ e.toInt.toNat) :
    (e.toInt < exponentBound → Operator.pow.eval position (.integer b) (.integer e) = .ok (.integer n)) ∧
      (exponentBound ≤ e.toInt → ∃ r, Operator.pow.eval position (.integer b) (.integer e) = .ok (.real r) ∧
        Binary64.exactValue? r = some (if e.toInt < 2 ^ 53 then (n.toInt : ℚ) else |n.toInt|)) := by
  constructor
  · intro short
    rw [eval, apply_pow_small nonnegative fits short]
    rfl
  · intro great
    have outcome : ∃ r, power (Value.integer b).toReal (Value.integer e).toReal = .ok r ∧
        Binary64.exactValue? r = some (if e.toInt < 2 ^ 53 then (n.toInt : ℚ) else |n.toInt|) := by
      split
      · exact power_of_short_exponent nonnegative fits great ‹_›
      · exact power_of_long_exponent fits (not_lt.mp ‹_›)
    obtain ⟨r, result, value⟩ := outcome
    refine ⟨r, ?_, value⟩
    rw [eval, apply_pow_great great, result]
    rfl

theorem eval_pow_minus_eight :
    0 ≤ Int64.toInt 21 ∧ Int64.toInt Int64.minValue = Int64.toInt (-8) ^ (Int64.toInt 21).toNat ∧
      Operator.pow.eval 3 (.integer (-8)) (.integer 21) = .ok (.integer Int64.minValue) := by
  have nonnegative : 0 ≤ Int64.toInt 21 := by decide
  have fits : Int64.toInt Int64.minValue = Int64.toInt (-8) ^ (Int64.toInt 21).toNat := by decide
  exact ⟨nonnegative, fits, (eval_pow_of_fits 3 nonnegative fits).1 (by decide)⟩

/-- The exponent 2 ^ 53 + 1 is odd, but as a real it is 2 ^ 53. -/
theorem eval_pow_minus_one_long :
    0 ≤ Int64.toInt 9007199254740993 ∧ Int64.toInt (-1) = Int64.toInt (-1) ^ (Int64.toInt 9007199254740993).toNat ∧
      ∃ r, Operator.pow.eval 0 (.integer (-1)) (.integer 9007199254740993) = .ok (.real r) ∧
        Binary64.exactValue? r = some 1 := by
  have base : Int64.toInt (-1) = -1 := by decide
  have odd : Odd (Int64.toInt 9007199254740993).toNat := by decide
  have fits : Int64.toInt (-1) = Int64.toInt (-1) ^ (Int64.toInt 9007199254740993).toNat := by
    rw [base, odd.neg_one_pow]
  obtain ⟨r, power, value⟩ := power_of_long_exponent fits (by decide)
  refine ⟨by decide, fits, r, ?_, ?_⟩
  · rw [eval, apply_pow_great (by decide), power]
    rfl
  · rw [value, base, Int.cast_neg, Int.cast_one, abs_neg, abs_one]

end Operator

end Calculator
