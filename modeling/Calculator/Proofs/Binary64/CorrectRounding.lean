import Calculator.Proofs.Binary64.Exact
import Calculator.Proofs.Binary64.Magnitude
import Calculator.Proofs.Binary64.Nearest

namespace Calculator.Binary64

open Float.Model (Format UnpackedFloat totalExponent)
open Float.Model.UnpackedFloat (Sign Accuracy ExtendedMantissa roundWithAccuracy accuracyOfFraction)

/-- A mantissa and its accuracy are what is kept of a number: its whole part, and whether the rest is nothing,
    less than a half, a half, or more. -/
def Tells (m : ℕ) (accuracy : Accuracy) (v : ℚ) : Prop :=
  match accuracy with
  | .exact => v = m
  | .inexact .lt => m < v ∧ v < m + 1 / 2
  | .inexact .eq => v = m + 1 / 2
  | .inexact .gt => m + 1 / 2 < v ∧ v < m + 1

section Tells

variable {m : ℕ} {accuracy : Accuracy} {v : ℚ} {em : ExtendedMantissa}

theorem tells_exact (m : ℕ) : Tells m .exact m := rfl

theorem Tells.bounds (tells : Tells m accuracy v) : m ≤ v ∧ v < m + 1 := by
  cases accuracy with
  | exact =>
    have same : v = m := tells
    constructor <;> linarith
  | inexact order =>
    cases order with
    | lt =>
      obtain ⟨above, below⟩ : m < v ∧ v < m + 1 / 2 := tells
      constructor <;> linarith
    | eq =>
      have half : v = m + 1 / 2 := tells
      constructor <;> linarith
    | gt =>
      obtain ⟨above, below⟩ : m + 1 / 2 < v ∧ v < m + 1 := tells
      constructor <;> linarith

theorem Tells.floor (tells : Tells m accuracy v) : ⌊v⌋ = m := by
  rw [Int.floor_eq_iff]
  exact_mod_cast tells.bounds

theorem Tells.roundToNearestEven (tells : Tells m accuracy v) :
    (accuracy.roundToNearestEven m : ℤ) = nearestEven v := by
  have floor := tells.floor
  have whole : ((m : ℤ) : ℚ) = m := Int.cast_natCast m
  unfold nearestEven
  rw [floor, whole]
  cases accuracy with
  | exact =>
    have same : v = m := tells
    rw [if_pos (by linarith)]
    rfl
  | inexact order =>
    cases order with
    | lt =>
      obtain ⟨above, below⟩ : m < v ∧ v < m + 1 / 2 := tells
      rw [if_pos (by linarith)]
      rfl
    | eq =>
      have half : v = m + 1 / 2 := tells
      rw [if_neg (by linarith), if_neg (by linarith)]
      exact Nat.cast_add m (m % 2)
    | gt =>
      obtain ⟨above, below⟩ : m + 1 / 2 < v ∧ v < m + 1 := tells
      rw [if_neg (by linarith), if_pos (by linarith)]
      rfl

theorem tells_shiftRightOne (tells : Tells em.mantissa em.accuracy v) :
    Tells em.shiftRightOne.mantissa em.shiftRightOne.accuracy (v / 2) := by
  obtain ⟨m, round, sticky⟩ := em
  have split : ((m % 2 : ℕ) : ℚ) + 2 * ((m / 2 : ℕ) : ℚ) = m := by exact_mod_cast Nat.mod_add_div m 2
  rcases Nat.mod_two_eq_zero_or_one m with last | last <;> cases round <;> cases sticky <;>
    simp [Tells, ExtendedMantissa.accuracy, ExtendedMantissa.shiftRightOne, last] at tells split ⊢ <;>
    first | linarith | (constructor <;> linarith)

theorem tells_shiftRight (tells : Tells em.mantissa em.accuracy v) (k : ℕ) :
    Tells (em >>> k).mantissa (em >>> k).accuracy (v / 2 ^ k) := by
  induction k with
  | zero =>
    rw [pow_zero, div_one]
    exact tells
  | succ k ih =>
    rw [pow_succ, ← div_div]
    exact tells_shiftRightOne ih

theorem ofMantissaAndAccuracy_accuracy (m : ℕ) (accuracy : Accuracy) :
    (ExtendedMantissa.ofMantissaAndAccuracy m accuracy).accuracy = accuracy := by
  cases accuracy with
  | exact => rfl
  | inexact order => cases order <;> rfl

theorem roundedMantissa_shiftRight (tells : Tells m accuracy v) (k : ℕ) :
    ((ExtendedMantissa.ofMantissaAndAccuracy m accuracy >>> k).roundedMantissa : ℤ) = nearestEven (v / 2 ^ k) := by
  refine (tells_shiftRight ?_ k).roundToNearestEven
  rwa [ofMantissaAndAccuracy_mantissa, ofMantissaAndAccuracy_accuracy]

theorem tells_fraction (m : ℕ) {num den : ℕ} (proper : num < den) :
    Tells m (accuracyOfFraction num den) (m + num / den) := by
  have positive : (0 : ℚ) < den := by exact_mod_cast Nat.zero_lt_of_lt proper
  have below : (num : ℚ) / den < 1 := (div_lt_one positive).mpr (by exact_mod_cast proper)
  unfold accuracyOfFraction
  split
  · rename_i zero
    simp [Tells, zero]
  · rename_i nonzero
    have above : (0 : ℚ) < num / den := div_pos (by exact_mod_cast Nat.pos_of_ne_zero nonzero) positive
    rcases lt_trichotomy (2 * num) den with less | equal | more
    · rw [Nat.compare_eq_lt.mpr less]
      have half : (num : ℚ) / den < 1 / 2 := by
        rw [div_lt_div_iff₀ positive two_pos]
        exact_mod_cast (by omega : num * 2 < 1 * den)
      exact ⟨by linarith, by linarith⟩
    · rw [Nat.compare_eq_eq.mpr equal]
      have half : (num : ℚ) / den = 1 / 2 := by
        rw [div_eq_div_iff positive.ne' two_ne_zero]
        exact_mod_cast (by omega : num * 2 = 1 * den)
      exact congrArg _ half
    · rw [Nat.compare_eq_gt.mpr more]
      have half : (1 : ℚ) / 2 < num / den := by
        rw [div_lt_div_iff₀ two_pos positive]
        exact_mod_cast (by omega : 1 * den < num * 2)
      exact ⟨by linarith, by linarith⟩

end Tells

section Packed

variable {sign : Sign} {m : ℕ} {e : ℤ}

theorem exactValue?_of_unpack {x : Float} {positive : 0 < m}
    (unpacked : x.toModel.unpack = .finite sign m e positive) :
    exactValue? x = some ((sign.apply m : ℤ) * 2 ^ e : ℚ) := by
  rw [exactValue?, unpacked]

theorem exactValue?_zero (sign : Sign) : exactValue? (.ofModel (.pack (.zero sign))) = some 0 := by
  cases sign <;> rfl

theorem exactValue?_infinity (sign : Sign) : exactValue? (.ofModel (.pack (.infinity sign))) = none := by
  cases sign <;> rfl

theorem abs_apply (sign : Sign) (m : ℕ) : |((sign.apply m : ℤ) : ℚ)| = m := by
  cases sign with
  | positive => exact abs_of_nonneg (Nat.cast_nonneg m)
  | negative =>
    change |((-(m : ℤ) : ℤ) : ℚ)| = m
    rw [Int.cast_neg, abs_neg, Int.cast_natCast, Nat.abs_cast]

theorem abs_signed (sign : Sign) (m : ℕ) (e : ℤ) : |((sign.apply m : ℤ) * 2 ^ e : ℚ)| = m * 2 ^ e := by
  rw [abs_mul, abs_apply, abs_of_pos (unit_pos e)]

/-- A mantissa of 53 digits, or of fewer with the least exponent, is packed as it is unless it is too great. -/
theorem exactValue?_pack (positive : 0 < m) (short : m < 2 ^ 53) (least : -1074 ≤ e)
    (shape : 2 ^ 52 ≤ m ∨ e = -1074) :
    exactValue? (.ofModel (.pack (.finite sign m e positive))) =
      if |((sign.apply m : ℤ) * 2 ^ e : ℚ)| < 2 ^ 1024 then some ((sign.apply m : ℤ) * 2 ^ e : ℚ) else none := by
  rw [abs_signed]
  by_cases inRange : e ≤ 971
  · have small : (m : ℚ) * 2 ^ e < 2 ^ 1024 := by
      calc (m : ℚ) * 2 ^ e < 2 ^ 53 * 2 ^ e := mul_lt_mul_of_pos_right (by exact_mod_cast short) (unit_pos e)
        _ ≤ 2 ^ 53 * 2 ^ (971 : ℤ) :=
          mul_le_mul_of_nonneg_left (zpow_le_zpow_right₀ one_le_two inRange) (by positivity)
        _ = 2 ^ 1024 := by rw [show (971 : ℤ) = (971 : ℕ) from rfl, zpow_natCast, ← pow_add]
    rw [if_pos small]
    exact exactValue?_of_unpack (unpack_pack positive ⟨short, least, inRange, shape⟩)
  · have large : ¬ (m : ℚ) * 2 ^ e < 2 ^ 1024 := by
      have normal : 2 ^ 52 ≤ m := shape.resolve_right (by omega)
      rw [not_lt]
      calc (2 : ℚ) ^ 1024 = 2 ^ 52 * 2 ^ (972 : ℤ) := by
            rw [show (972 : ℤ) = (972 : ℕ) from rfl, zpow_natCast, ← pow_add]
        _ ≤ 2 ^ 52 * 2 ^ e :=
          mul_le_mul_of_nonneg_left (zpow_le_zpow_right₀ one_le_two (by omega)) (by positivity)
        _ ≤ m * 2 ^ e := mul_le_mul_of_nonneg_right (by exact_mod_cast normal) (unit_pos e).le
    have overflows : Float.Model.pack (.finite sign m e positive) = .pack (.infinity sign) := by
      have bits : UnpackedFloat.pack .binary64 (.finite sign m e positive) =
          UnpackedFloat.pack .binary64 (.infinity sign) := by
        rw [pack_finite, if_pos (by omega)]
        rfl
      unfold Float.Model.pack
      simp only [bits]
    rw [if_neg large, overflows, exactValue?_infinity]

end Packed

section Rounding

variable {sign : Sign} {m : ℕ} {e : ℤ} {accuracy : Accuracy} {v : ℚ}

theorem apply_eq_mul (sign : Sign) (m : ℕ) : ((sign.apply m : ℤ) : ℚ) = (sign.apply 1 : ℤ) * m := by
  cases sign <;> simp [Sign.apply]

theorem rounded_signed (sign : Sign) (q : ℚ) : rounded ((sign.apply 1 : ℤ) * q) = (sign.apply 1 : ℤ) * rounded q := by
  cases sign with
  | positive => simp [Sign.apply]
  | negative => simp [Sign.apply, rounded_neg]

def target (m : ℕ) (e : ℤ) : ℤ := max (m.log2 + 1 + e - 53) (-1074)

theorem le_target (m : ℕ) (e : ℤ) : -1074 ≤ target m e := le_max_right _ _

theorem target_eq_unitExponent (tells : Tells m accuracy v) (nonzero : v ≠ 0) (counted : 0 < m ∨ e ≤ -1074) :
    target m e = unitExponent (v * 2 ^ e) := by
  obtain ⟨lower, upper⟩ := tells.bounds
  have unit := unit_pos e
  have positive : 0 < v := lt_of_le_of_ne ((Nat.cast_nonneg m).trans lower) nonzero.symm
  have magnitude : |v * 2 ^ e| = v * 2 ^ e := abs_of_pos (mul_pos positive unit)
  have above : v * 2 ^ e < 2 ^ (m.log2 + 1 + e) := by
    have digits : m + 1 ≤ 2 ^ (m.log2 + 1) := Nat.lt_log2_self
    have bound : v < 2 ^ (m.log2 + 1) := upper.trans_le (by exact_mod_cast digits)
    rw [zpow_add₀ two_ne_zero]
    exact_mod_cast mul_lt_mul_of_pos_right bound unit
  have least := le_unitExponent (v * 2 ^ e)
  apply le_antisymm
  · rcases Nat.eq_zero_or_pos m with zero | counted'
    · have tiny : e ≤ -1074 := counted.resolve_left (by omega)
      rw [target, zero, Nat.log2_zero]
      omega
    · have digits : ((2 : ℕ) ^ m.log2 : ℕ) ≤ v :=
        (Nat.cast_le.mpr (Nat.log2_self_le counted'.ne')).trans lower
      have below : (2 : ℚ) ^ (m.log2 + e) ≤ v * 2 ^ e := by
        rw [zpow_add₀ two_ne_zero]
        exact_mod_cast mul_le_mul_of_nonneg_right digits unit.le
      have exponents := below.trans_lt (magnitude ▸ lt_of_unitExponent (v * 2 ^ e))
      have order := (zpow_lt_zpow_iff_right₀ one_lt_two).mp exponents
      unfold target
      omega
  · refine unitExponent_le (mul_pos positive unit).ne' ?_ (le_max_right _ _)
    rw [magnitude]
    refine above.trans_le (zpow_le_zpow_right₀ one_le_two ?_)
    unfold target
    omega

theorem shift_rounded {r : ℕ} {u : ℤ} (short : r ≤ 2 ^ 53) (least : -1074 ≤ u) (shape : 2 ^ 52 ≤ r ∨ u = -1074) :
    ∃ m e, UnpackedFloat.shiftToTargetExponent .binary64 r u .exact = (⟨m, false, false⟩, e) ∧
      (m * 2 ^ e : ℚ) = r * 2 ^ u ∧ m < 2 ^ 53 ∧ -1074 ≤ e ∧ (2 ^ 52 ≤ m ∨ e = -1074) := by
  have shifted : UnpackedFloat.shiftToTargetExponent .binary64 r u .exact =
      (ExtendedMantissa.ofMantissaAndAccuracy r .exact >>> (target r u - u).toNat, u + (target r u - u).toNat) := rfl
  rcases short.lt_or_eq with below | rfl
  · have digits := log2_le_of_lt below
    have stays : (target r u - u).toNat = 0 := by
      unfold target
      omega
    refine ⟨r, u, ?_, rfl, below, least, shape⟩
    rw [shifted, stays]
    exact Prod.ext rfl (Int.add_zero u)
  · have moves : (target (2 ^ 53) u - u).toNat = 1 := by
      rw [target, Nat.log2_two_pow]
      omega
    refine ⟨2 ^ 52, u + 1, ?_, ?_, by decide, by omega, .inl le_rfl⟩
    · rw [shifted, moves]
      rfl
    · rw [zpow_add_one₀ two_ne_zero]
      push_cast
      ring

theorem rounded_bounds {k r : ℕ} (tells : Tells m accuracy v) (counted : 0 < m ∨ e ≤ -1074)
    (moved : target m e = e + k) (nearest : (r : ℤ) = nearestEven (v / 2 ^ k)) :
    r ≤ 2 ^ 53 ∧ (2 ^ 52 ≤ r ∨ target m e = -1074) := by
  obtain ⟨lower, upper⟩ := tells.bounds
  have unit : (0 : ℚ) < 2 ^ k := by positivity
  have long : m.log2 + 1 ≤ 53 + k := by
    unfold target at moved
    omega
  constructor
  · have digits : m + 1 ≤ 2 ^ (53 + k) := Nat.lt_log2_self.trans_le (Nat.pow_le_pow_right two_pos long)
    have below : v / 2 ^ k ≤ (2 ^ 53 : ℤ) := by
      rw [div_le_iff₀ unit]
      have power : ((m + 1 : ℕ) : ℚ) ≤ 2 ^ 53 * 2 ^ k := by
        rw [← pow_add]
        exact_mod_cast digits
      push_cast at power ⊢
      linarith
    have bound := nearestEven_le below
    rw [← nearest] at bound
    exact_mod_cast bound
  · by_cases least : target m e = -1074
    · exact .inr least
    · have positive : 0 < m := by
        rcases Nat.eq_zero_or_pos m with zero | positive
        · have tiny : e ≤ -1074 := counted.resolve_left (by omega)
          rw [target, zero, Nat.log2_zero] at least
          omega
        · exact positive
      have exponent : m.log2 = 52 + k := by
        unfold target at moved least
        omega
      have above : (2 ^ 52 : ℤ) ≤ v / 2 ^ k := by
        rw [le_div_iff₀ unit]
        have power : (2 : ℚ) ^ 52 * 2 ^ k ≤ m := by
          rw [← pow_add, ← exponent]
          exact_mod_cast Nat.log2_self_le positive.ne'
        push_cast
        exact power.trans lower
      have bound := le_nearestEven above
      rw [← nearest] at bound
      exact .inl (by exact_mod_cast bound)

theorem exactValue?_roundWithAccuracy (tells : Tells m accuracy v) (counted : 0 < m ∨ e ≤ -1074)
    (fine : e ≤ target m e) :
    exactValue? (.ofModel (.pack (roundWithAccuracy .binary64 sign m e accuracy))) =
      nearestReal? ((sign.apply 1 : ℤ) * (v * 2 ^ e)) := by
  obtain ⟨k, moved⟩ := Int.exists_add_of_le fine
  have shift : (target m e - e).toNat = k := by omega
  have first : UnpackedFloat.shiftToTargetExponent .binary64 m e accuracy =
      (ExtendedMantissa.ofMantissaAndAccuracy m accuracy >>> k, target m e) := by
    rw [← shift]
    exact Prod.ext rfl (show e + ((target m e - e).toNat : ℤ) = target m e by omega)
  have nearest := roundedMantissa_shiftRight tells k
  generalize rounding : (ExtendedMantissa.ofMantissaAndAccuracy m accuracy >>> k).roundedMantissa = r at nearest
  obtain ⟨short, shape⟩ := rounded_bounds tells counted moved nearest
  obtain ⟨m', e', second, same, short', least', shape'⟩ := shift_rounded short (le_target m e) shape
  have value : rounded (v * 2 ^ e) = m' * 2 ^ e' := by
    rw [same]
    by_cases zero : v = 0
    · have nothing : (r : ℤ) = 0 := by
        rw [nearest, zero, zero_div, ← Int.cast_zero, nearestEven_intCast]
      have none : r = 0 := by exact_mod_cast nothing
      rw [zero, zero_mul, rounded_zero, none, Nat.cast_zero, zero_mul]
    · have scaled : v * 2 ^ e / 2 ^ target m e = v / 2 ^ k := by
        rw [moved, zpow_add₀ two_ne_zero, zpow_natCast, mul_comm v, mul_div_mul_left _ _ (unit_pos e).ne']
      rw [rounded, ← target_eq_unitExponent tells zero counted, scaled, ← nearest, Int.cast_natCast]
  have signed : rounded ((sign.apply 1 : ℤ) * (v * 2 ^ e)) = (sign.apply m' : ℤ) * 2 ^ e' := by
    rw [rounded_signed, value, apply_eq_mul, mul_assoc]
  unfold roundWithAccuracy nearestReal?
  simp only [first, rounding, second, signed]
  split
  · rename_i zero
    have nothing : ((sign.apply m' : ℤ) * 2 ^ e' : ℚ) = 0 := by
      rw [apply_eq_mul, zero, Nat.cast_zero, mul_zero, zero_mul]
    rw [exactValue?_zero, nothing, abs_zero, if_pos (by positivity)]
  · exact exactValue?_pack _ short' least' shape'

end Rounding

end Calculator.Binary64
