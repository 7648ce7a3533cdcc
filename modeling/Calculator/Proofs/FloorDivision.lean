import Calculator.Proofs.Whole
import Mathlib.Algebra.Order.Floor.Ring
import Mathlib.Data.Rat.Floor
import Mathlib.Tactic.FieldSimp
import Mathlib.Tactic.Linarith

namespace Calculator.Whole

/-- The quotient is the floor of the exact one: what remains is nothing, or has the sign of the divisor and a
smaller magnitude. -/
structure IsFloorDivision (a b quotient remainder : ℤ) : Prop where
  nonzero : b ≠ 0
  sum : a = quotient * b + remainder
  remainder : remainder = 0 ∨ remainder.sign = b.sign ∧ |remainder| < |b|

theorem remainder_iff {b s : ℤ} (nonzero : b ≠ 0) :
    (s = 0 ∨ s.sign = b.sign ∧ |s| < |b|) ↔ 0 ≤ s ∧ s < b ∨ b < s ∧ s ≤ 0 := by
  rcases lt_or_gt_of_ne nonzero with negative | positive
  · rw [Int.sign_eq_neg_one_of_neg negative, Int.sign_eq_neg_one_iff_neg, abs_of_neg negative, abs_lt]
    omega
  · rw [Int.sign_eq_one_of_pos positive, Int.sign_eq_one_iff_pos, abs_of_pos positive, abs_lt]
    omega

namespace IsFloorDivision

variable {a b q s : ℤ} (division : IsFloorDivision a b q s)
include division

theorem divisor_ne_zero : (b : ℚ) ≠ 0 := by exact_mod_cast division.nonzero

theorem quotient_eq : (a / b : ℚ) = q + s / b := by
  have divisor := division.divisor_ne_zero
  have sum : (a : ℚ) = q * b + s := by exact_mod_cast division.sum
  rw [sum]
  field_simp

theorem floor : ⌊(a / b : ℚ)⌋ = q := by
  rw [division.quotient_eq, Int.floor_eq_iff]
  rcases (remainder_iff division.nonzero).mp division.remainder with ⟨nonnegative, below⟩ | ⟨above, nonpositive⟩
  · have positive : (0 : ℚ) < b := by exact_mod_cast nonnegative.trans_lt below
    have fraction : (s / b : ℚ) < 1 := (div_lt_one positive).mpr (by exact_mod_cast below)
    have sign : (0 : ℚ) ≤ s / b := div_nonneg (by exact_mod_cast nonnegative) positive.le
    constructor <;> linarith
  · have negative : (b : ℚ) < 0 := by exact_mod_cast above.trans_le nonpositive
    have fraction : (s / b : ℚ) < 1 := (div_lt_one_of_neg negative).mpr (by exact_mod_cast above)
    have sign : (0 : ℚ) ≤ s / b := div_nonneg_of_nonpos (by exact_mod_cast nonpositive) negative.le
    constructor <;> linarith

theorem quotient_eq_iff : (a / b : ℚ) = q ↔ s = 0 := by
  rw [division.quotient_eq, add_eq_left, div_eq_zero_iff, or_iff_left division.divisor_ne_zero, Int.cast_eq_zero]

end IsFloorDivision

section Integers

variable {a b : ℤ}

theorem tmod_bounds (nonzero : b ≠ 0) : (a.tmod b).natAbs < b.natAbs := by
  rw [Int.natAbs_tmod]
  exact Nat.mod_lt _ (Int.natAbs_pos.mpr nonzero)

theorem isFloorDivision_kept (nonzero : b ≠ 0) (kept : a.tmod b = 0 ∨ (a.tmod b < 0 ↔ b < 0)) :
    IsFloorDivision a b (a.tdiv b) (a.tmod b) where
  nonzero := nonzero
  sum := by
    have sum := Int.mul_tdiv_add_tmod a b
    rw [mul_comm]
    exact sum.symm
  remainder := by
    have bound := tmod_bounds (a := a) nonzero
    rw [remainder_iff nonzero]
    omega

theorem isFloorDivision_moved (nonzero : b ≠ 0) (left : a.tmod b ≠ 0) (moved : ¬ (a.tmod b < 0 ↔ b < 0)) :
    IsFloorDivision a b (a.tdiv b - 1) (a.tmod b + b) where
  nonzero := nonzero
  sum := by
    have sum := Int.mul_tdiv_add_tmod a b
    linarith
  remainder := by
    have bound := tmod_bounds (a := a) nonzero
    rw [remainder_iff nonzero]
    omega

end Integers

section Machine

variable {a b : Int64} {d : Division}

theorem toInt_div_of_inRange (fits : ¬ (a = Int64.minValue ∧ b = -1)) : (a / b).toInt = a.toInt.tdiv b.toInt := by
  by_cases least : a = Int64.minValue
  · exact Int64.toInt_div_of_ne_right a b fun same => fits ⟨least, same⟩
  · exact Int64.toInt_div_of_ne_left a b least

theorem toInt_pred_quotient (nonzero : b.toInt ≠ 0) (left : a.toInt.tmod b.toInt ≠ 0)
    (fits : ¬ (a = Int64.minValue ∧ b = -1)) : (a / b - 1).toInt = a.toInt.tdiv b.toInt - 1 := by
  have range := inRange_toInt a
  have bound := tmod_bounds (a := a.toInt) nonzero
  have half : (a.toInt.tdiv b.toInt).natAbs * 2 ≤ a.toInt.natAbs := by
    rw [Int.natAbs_tdiv]
    calc a.toInt.natAbs / b.toInt.natAbs * 2 ≤ a.toInt.natAbs / b.toInt.natAbs * b.toInt.natAbs :=
          Nat.mul_le_mul_left _ (by omega)
      _ ≤ a.toInt.natAbs := Nat.div_mul_le_self _ _
  unfold InRange least greatest at range
  rw [Int64.toInt_sub, toInt_div_of_inRange fits]
  exact Int.bmod_eq_of_le (by simp; omega) (by simp; omega)

theorem toInt_moved_remainder (nonzero : b.toInt ≠ 0) (moved : ¬ (a.toInt.tmod b.toInt < 0 ↔ b.toInt < 0)) :
    (a % b + b).toInt = a.toInt.tmod b.toInt + b.toInt := by
  have range := inRange_toInt b
  have bound := tmod_bounds (a := a.toInt) nonzero
  unfold InRange least greatest at range
  rw [Int64.toInt_add, Int64.toInt_mod]
  exact Int.bmod_eq_of_le (by simp; omega) (by simp; omega)

theorem eq_zero_iff {w : Int64} : w = 0 ↔ w.toInt = 0 := by
  rw [← Int64.toInt_inj]
  rfl

theorem moved_iff : (a % b ≠ 0 ∧ decide (a % b < 0) ≠ decide (b < 0)) ↔
    a.toInt.tmod b.toInt ≠ 0 ∧ ¬ (a.toInt.tmod b.toInt < 0 ↔ b.toInt < 0) := by
  rw [Ne, Ne, Ne, decide_eq_decide, eq_zero_iff, Int64.lt_iff_toInt_lt, Int64.lt_iff_toInt_lt, Int64.toInt_mod]
  rfl

theorem isFloorDivision_of_floorDiv (divides : floorDiv a b = .ok d) :
    IsFloorDivision a.toInt b.toInt d.quotient.toInt d.remainder.toInt := by
  simp only [floorDiv, moved_iff] at divides
  split at divides
  · cases divides
  · rename_i nonzero
    rw [eq_zero_iff] at nonzero
    split at divides
    · cases divides
    · rename_i fits
      split at divides
      · rename_i moved
        cases divides
        rw [toInt_pred_quotient nonzero moved.1 fits, toInt_moved_remainder nonzero moved.2]
        exact isFloorDivision_moved nonzero moved.1 moved.2
      · rename_i kept
        cases divides
        rw [toInt_div_of_inRange fits, Int64.toInt_mod]
        exact isFloorDivision_kept nonzero (by tauto)

theorem exists_floorDiv (nonzero : b ≠ 0) (fits : ¬ (a = Int64.minValue ∧ b = -1)) : ∃ d, floorDiv a b = .ok d := by
  rw [floorDiv, if_neg nonzero, if_neg fits]
  dsimp only
  split <;> exact ⟨_, rfl⟩

theorem floorDiv_eq_error_iff {e : DomainError} : floorDiv a b = .error e ↔
    b = 0 ∧ e = .divisionByZero ∨ (a = Int64.minValue ∧ b = -1) ∧ e = .overflow := by
  constructor
  · intro refused
    by_cases zero : b = 0
    · rw [floorDiv, if_pos zero] at refused
      exact .inl ⟨zero, (Except.error.inj refused).symm⟩
    · by_cases past : a = Int64.minValue ∧ b = -1
      · rw [floorDiv, if_neg zero, if_pos past] at refused
        exact .inr ⟨past, (Except.error.inj refused).symm⟩
      · obtain ⟨d, divides⟩ := exists_floorDiv zero past
        rw [divides] at refused
        cases refused
  · rintro (⟨rfl, rfl⟩ | ⟨⟨rfl, rfl⟩, rfl⟩)
    · exact if_pos rfl
    · rfl

theorem inRange_moved (nonzero : b ≠ 0) (fits : ¬ (a = Int64.minValue ∧ b = -1))
    (moved : a % b ≠ 0 ∧ decide (a % b < 0) ≠ decide (b < 0)) :
    InRange ((a / b).toInt - 1) ∧ InRange ((a % b).toInt + b.toInt) := by
  rw [moved_iff] at moved
  rw [Ne, eq_zero_iff] at nonzero
  have quotient := inRange_toInt (a / b - 1)
  have remainder := inRange_toInt (a % b + b)
  rw [toInt_pred_quotient nonzero moved.1 fits, ← toInt_div_of_inRange fits] at quotient
  rw [toInt_moved_remainder nonzero moved.2, ← Int64.toInt_mod] at remainder
  exact ⟨quotient, remainder⟩

end Machine

/-- The division toward negative infinity is refused by a divisor of zero, and where the quotient is past 64 bits, which
is for the least number and minus one only. It is exact in all other cases, and no step of it leaves 64 bits. -/
theorem floorDiv_exact_unless_refused (a b : Int64) :
    (floorDiv a b = .error .divisionByZero ↔ b = 0) ∧
      (floorDiv a b = .error .overflow ↔ a = Int64.minValue ∧ b = -1) ∧
      (b ≠ 0 → ¬ (a = Int64.minValue ∧ b = -1) →
        (∃ q r, floorDiv a b = .ok ⟨q, r⟩ ∧ q.toInt = ⌊(a.toInt / b.toInt : ℚ)⌋ ∧
          a.toInt = q.toInt * b.toInt + r.toInt ∧
          (r.toInt = 0 ∨ r.toInt.sign = b.toInt.sign ∧ |r.toInt| < |b.toInt|)) ∧
        (a % b ≠ 0 ∧ decide (a % b < 0) ≠ decide (b < 0) →
          InRange ((a / b).toInt - 1) ∧ InRange ((a % b).toInt + b.toInt))) := by
  refine ⟨by simp [floorDiv_eq_error_iff], by simp [floorDiv_eq_error_iff], fun nonzero fits => ?_⟩
  refine ⟨?_, inRange_moved nonzero fits⟩
  obtain ⟨⟨q, r⟩, divides⟩ := exists_floorDiv nonzero fits
  have division := isFloorDivision_of_floorDiv divides
  exact ⟨q, r, divides, division.floor.symm, division.sum, division.remainder⟩

/-- The least number by the greatest: the quotient -1 and the remainder -1 toward zero are both moved. -/
theorem floorDiv_least_greatest :
    (∃ q r, floorDiv Int64.minValue Int64.maxValue = .ok ⟨q, r⟩ ∧
      Int64.minValue.toInt = q.toInt * Int64.maxValue.toInt + r.toInt) ∧
      InRange ((Int64.minValue / Int64.maxValue).toInt - 1) ∧
      InRange ((Int64.minValue % Int64.maxValue).toInt + Int64.maxValue.toInt) := by
  obtain ⟨-, -, exactly⟩ := floorDiv_exact_unless_refused Int64.minValue Int64.maxValue
  obtain ⟨⟨q, r, divides, -, sum, -⟩, stays⟩ := exactly (by decide) (by decide)
  exact ⟨⟨q, r, divides, sum⟩, stays (by decide)⟩

end Calculator.Whole
