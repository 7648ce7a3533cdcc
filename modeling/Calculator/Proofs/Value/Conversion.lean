import Calculator.Proofs.Binary64.Remainder
import Calculator.Proofs.Binary64.WholeNumbers
import Calculator.Proofs.Value

namespace Calculator

namespace Binary64

open Float.Model (UnpackedFloat)
open Float.Model.UnpackedFloat (Sign ExtendedMantissa)

variable {x : Float} {a : ℚ} {m : ℤ}

/-- Cuts off the fraction and moves what is out of range to the nearer end of it. What is no number becomes zero. -/
def saturated (x : Float) : Int64 := x.toModel.toInt64

theorem roundToInt_eq (sign : Sign) (m : ℕ) (e : ℤ) :
    UnpackedFloat.roundToInt sign m e = sign.apply ((m * 2 ^ e.toNat / 2 ^ (-e).toNat : ℕ) : ℤ) := by
  have opened : UnpackedFloat.roundToInt sign m e = sign.apply
      ((ExtendedMantissa.ofMantissaAndAccuracy (m <<< (e - 0).toNat) .exact >>>
        (0 - (e - ((e - 0).toNat : ℤ))).toNat).mantissa : ℤ) := rfl
  have shift : (-(e - (e.toNat : ℤ))).toNat = (-e).toNat := by omega
  rw [opened, shiftRight_mantissa, ofMantissaAndAccuracy_mantissa, Nat.shiftLeft_eq, sub_zero,
    zero_sub, shift]

theorem toInt_eq_towardZero (known : exactValue? x = some a) (least greatest : ℤ) :
    x.toModel.unpack.toInt least greatest = towardZero a := by
  rcases exactValue?_cases known with ⟨_, unpacked, rfl⟩ | ⟨sign, m, e, _, unpacked, _, rfl⟩
  · rw [unpacked]
    exact (towardZero_intCast 0).symm
  · rw [unpacked]
    refine (roundToInt_eq sign m e).trans ?_
    cases e with
    | ofNat k =>
      have whole : ((sign.apply (m : ℤ) : ℤ) : ℚ) * 2 ^ Int.ofNat k = (sign.apply (m * 2 ^ k : ℕ) : ℤ) := by
        rw [Int.ofNat_eq_natCast, zpow_natCast, apply_eq_mul, apply_eq_mul sign (m * 2 ^ k)]
        push_cast
        ring
      rw [whole, towardZero_intCast]
      simp
    | negSucc k =>
      have quotient : ((sign.apply (m : ℤ) : ℤ) : ℚ) * 2 ^ Int.negSucc k =
          (sign.apply (m : ℤ) : ℤ) / (2 ^ (k + 1) : ℕ) := by
        rw [zpow_negSucc, div_eq_mul_inv]
        push_cast
        rfl
      rw [quotient, towardZero_signed]
      simp [Int.neg_negSucc]

def leastReal : Float := -9223372036854775808

/-- Whether a real is a whole number in range, told by comparisons of reals. -/
def isInRange (x : Float) : Bool := isWhole x && !(decide (x < leastReal) || decide (x ≥ -leastReal))

theorem isWhole_iff (known : exactValue? x = some a) : isWhole x = true ↔ ∃ n : ℤ, a = n := by
  rw [isWhole, Bool.and_eq_true, hasNoFraction_iff known]
  exact and_iff_right (isFinite_iff_exactValue?.mpr ⟨a, known⟩)

theorem isFinite_of_isInRange (inRange : isInRange x = true) : x.isFinite = true := by
  rw [isInRange, isWhole, Bool.and_eq_true, Bool.and_eq_true] at inRange
  exact inRange.1.1

theorem isInRange_iff (known : exactValue? x = some a) : isInRange x = true ↔ ∃ n : ℤ, Whole.InRange n ∧ a = n := by
  have lower : exactValue? leastReal = some ((Whole.least : ℤ) : ℚ) := toInt?_eq_some_iff.mp (by rfl)
  have upper : exactValue? (-leastReal) = some ((Whole.greatest + 1 : ℤ) : ℚ) := toInt?_eq_some_iff.mp (by rfl)
  rw [isInRange, Bool.and_eq_true, isWhole_iff known, Bool.not_eq_true', Bool.or_eq_false_iff, decide_eq_false_iff_not,
    decide_eq_false_iff_not, lt_iff_value_lt known lower, ge_iff_le, le_iff_value_le upper known]
  constructor
  · rintro ⟨⟨n, rfl⟩, atLeast, atMost⟩
    refine ⟨n, ⟨?_, ?_⟩, rfl⟩
    · exact_mod_cast not_lt.mp atLeast
    · exact Int.lt_add_one_iff.mp (by exact_mod_cast not_le.mp atMost)
  · rintro ⟨n, ⟨atLeast, atMost⟩, rfl⟩
    refine ⟨⟨n, rfl⟩, not_lt.mpr (by exact_mod_cast atLeast), not_le.mpr ?_⟩
    exact_mod_cast Int.lt_add_one_iff.mpr atMost

theorem toInt_saturated (known : exactValue? x = some (m : ℚ)) (inRange : Whole.InRange m) :
    (saturated x).toInt = m := by
  obtain ⟨w, rfl⟩ := Whole.exists_toInt_eq inRange
  have clamped : saturated x = Int64.ofIntClamp w.toInt := by
    rw [← towardZero_intCast w.toInt, ← toInt_eq_towardZero known]
    rfl
  rw [clamped, Int64.ofIntClamp_toInt]

end Binary64

namespace Value

open Binary64 (ofInt64 rounded)

variable {x : Float} {n w : Int64}

theorem wholeOfReal?_eq_some_iff : wholeOfReal? x = some n ↔ Binary64.exactValue? x = some (n.toInt : ℚ) :=
  toWhole?_eq_some_iff (v := .real x)

/-- The conversion is the test of the range and then the one that saturates. -/
theorem wholeOfReal?_eq_saturated (x : Float) :
    wholeOfReal? x = if Binary64.isInRange x then some (Binary64.saturated x) else none := by
  split
  · rename_i inRange
    obtain ⟨a, known⟩ := Binary64.isFinite_iff_exactValue?.mp (Binary64.isFinite_of_isInRange inRange)
    obtain ⟨m, range, rfl⟩ := (Binary64.isInRange_iff known).mp inRange
    rw [wholeOfReal?_eq_some_iff, Binary64.toInt_saturated known range, known]
  · rename_i outside
    rw [Option.eq_none_iff_forall_ne_some]
    intro w converts
    have known := wholeOfReal?_eq_some_iff.mp converts
    exact outside ((Binary64.isInRange_iff known).mpr ⟨w.toInt, Whole.inRange_toInt w, rfl⟩)

theorem normalized_cases (v : Value) :
    v.normalized = v ∨ ∃ n, v.normalized = .integer n ∧ v.exactValue? = some (n.toInt : ℚ) := by
  unfold normalized
  cases whole : v.toWhole? with
  | none => exact .inl rfl
  | some n => exact .inr ⟨n, rfl, toWhole?_eq_some_iff.mp whole⟩

theorem normalized_normalized (v : Value) : v.normalized.normalized = v.normalized := by
  rcases normalized_cases v with same | ⟨n, whole, -⟩
  · rw [same, same]
  · rw [whole, normalized_eq_integer_iff]
    rfl

section Back

theorem wholeOfReal?_ofInt64_iff : wholeOfReal? (ofInt64 n) = some w ↔ w.toInt = rounded n.toInt := by
  have nearest : Binary64.exactValue? (ofInt64 n) = some (rounded n.toInt) := exactValue?_toReal_rounded (v := .integer n) rfl
  rw [wholeOfReal?_eq_some_iff, nearest, Option.some_inj, eq_comm]

theorem wholeOfReal?_ofInt64_self_iff :
    wholeOfReal? (ofInt64 n) = some n ↔ ∃ x, Binary64.exactValue? x = some (n.toInt : ℚ) := by
  constructor
  · intro converts
    exact ⟨ofInt64 n, wholeOfReal?_eq_some_iff.mp converts⟩
  · rintro ⟨x, known⟩
    rw [wholeOfReal?_ofInt64_iff]
    exact (Binary64.Representable.rounded_eq (Binary64.nearestReal?_of_exactValue? known)).symm

theorem wholeOfReal?_ofInt64_eq_none_iff : wholeOfReal? (ofInt64 n) = none ↔ 2 ^ 63 - 512 ≤ n.toInt := by
  rw [Option.eq_none_iff_forall_ne_some]
  constructor
  · intro none
    by_contra small
    obtain ⟨w, moved⟩ := Binary64.exists_toInt_eq_rounded (Int64.le_toInt n) (not_le.mp small)
    exact none w (wholeOfReal?_ofInt64_iff.mpr moved)
  · intro great w converts
    rw [wholeOfReal?_ofInt64_iff, Binary64.rounded_eq_two_pow great (Int64.toInt_lt n).le] at converts
    have power : w.toInt = 2 ^ 63 := by exact_mod_cast converts
    exact (Int64.toInt_lt w).ne power

end Back

/-- A real converts to the whole number it is, if it is one of 64 bits, and the normal form of a number is that number.
A whole number comes back as what it is rounded to: as itself if it is a real, as another one if not, or not at all. -/
theorem conversions_exact :
    (∀ x, wholeOfReal? x = if Binary64.isInRange x then some (Binary64.saturated x) else none) ∧
    (∀ x n, wholeOfReal? x = some n ↔ x.isFinite = true ∧ Binary64.exactValue? x = some (n.toInt : ℚ)) ∧
    (∀ v : Value, v.normalized.exactValue? = v.exactValue? ∧
      (v.normalized = v ∨ ∃ n, v.normalized = .integer n ∧ v.exactValue? = some (n.toInt : ℚ)) ∧
      v.normalized.normalized = v.normalized) ∧
    ∀ n, (wholeOfReal? (ofInt64 n) = some n ↔ ∃ x, Binary64.exactValue? x = some (n.toInt : ℚ)) ∧
      (∀ w, wholeOfReal? (ofInt64 n) = some w ↔ w.toInt = rounded n.toInt) ∧
      (wholeOfReal? (ofInt64 n) = none ↔ 2 ^ 63 - 512 ≤ n.toInt) := by
  refine ⟨wholeOfReal?_eq_saturated, fun x n => ?_, fun v => ?_, fun n => ?_⟩
  · rw [wholeOfReal?_eq_some_iff, Binary64.isFinite_iff_exactValue?]
    exact ⟨fun known => ⟨⟨_, known⟩, known⟩, And.right⟩
  · exact ⟨exactValue?_normalized v, normalized_cases v, normalized_normalized v⟩
  · exact ⟨wholeOfReal?_ofInt64_self_iff, fun w => wholeOfReal?_ofInt64_iff, wholeOfReal?_ofInt64_eq_none_iff⟩

end Value

end Calculator
