import Calculator.Proofs.Binary64.Operations

namespace Calculator.Binary64

open Float.Model (UnpackedFloat)
open Float.Model.UnpackedFloat (Sign)

variable {x y : Float} {a b : ℚ} {m n : ℕ} {e f : ℤ}

theorem Canonical.lt_of_exponent_lt (left : Canonical m e) (right : Canonical n f) (finer : e < f) :
    (m * 2 ^ e : ℚ) < n * 2 ^ f := by
  have least := left.exponent_ge
  have long : 2 ^ 52 ≤ n := right.normal_or_least.resolve_right (by omega)
  calc (m * 2 ^ e : ℚ) < 2 ^ 53 * 2 ^ e := mul_lt_mul_of_pos_right (by exact_mod_cast left.mantissa_lt) (unit_pos e)
    _ = 2 ^ 52 * 2 ^ (e + 1) := by
      rw [zpow_add_one₀ two_ne_zero]
      ring
    _ ≤ 2 ^ 52 * 2 ^ f := mul_le_mul_of_nonneg_left (zpow_le_zpow_right₀ one_le_two finer) (by positivity)
    _ ≤ n * 2 ^ f := mul_le_mul_of_nonneg_right (by exact_mod_cast long) (unit_pos f).le

theorem Canonical.compare_eq (left : Canonical m e) (right : Canonical n f) :
    (compare e f).then (compare m n) = compare (m * 2 ^ e : ℚ) (n * 2 ^ f) := by
  rcases lt_trichotomy e f with finer | rfl | coarser
  · rw [compare_lt_iff_lt.mpr finer, compare_lt_iff_lt.mpr (left.lt_of_exponent_lt right finer)]
    rfl
  · have unit := unit_pos e
    rw [compare_eq_iff_eq.mpr rfl, Ordering.eq_then]
    rcases lt_trichotomy m n with less | rfl | more
    · have magnitudes : (m * 2 ^ e : ℚ) < n * 2 ^ e := mul_lt_mul_of_pos_right (by exact_mod_cast less) unit
      rw [compare_lt_iff_lt.mpr less, compare_lt_iff_lt.mpr magnitudes]
    · rw [compare_eq_iff_eq.mpr rfl, compare_eq_iff_eq.mpr rfl]
    · have magnitudes : (n * 2 ^ e : ℚ) < m * 2 ^ e := mul_lt_mul_of_pos_right (by exact_mod_cast more) unit
      rw [compare_gt_iff_gt.mpr more, compare_gt_iff_gt.mpr magnitudes]
  · rw [compare_gt_iff_gt.mpr coarser, compare_gt_iff_gt.mpr (right.lt_of_exponent_lt left coarser)]
    rfl

theorem compare_neg (p q : ℚ) : compare (-p) (-q) = (compare p q).swap := by
  rcases lt_trichotomy p q with less | rfl | more
  · rw [compare_lt_iff_lt.mpr less, compare_gt_iff_gt.mpr (neg_lt_neg less)]
    rfl
  · rw [compare_eq_iff_eq.mpr rfl, compare_eq_iff_eq.mpr rfl]
    rfl
  · rw [compare_gt_iff_gt.mpr more, compare_lt_iff_lt.mpr (neg_lt_neg more)]
    rfl

theorem apply_positive (m : ℕ) : ((Sign.positive.apply (m : ℤ) : ℤ) : ℚ) = m := Int.cast_natCast m

theorem apply_negative (m : ℕ) : ((Sign.negative.apply (m : ℤ) : ℤ) : ℚ) = -m := by
  change ((-(m : ℤ) : ℤ) : ℚ) = -m
  rw [Int.cast_neg, Int.cast_natCast]

section Unpacked

variable {positive : 0 < m} {positive' : 0 < n}

theorem magnitude_pos (positive : 0 < m) (e : ℤ) : (0 : ℚ) < m * 2 ^ e :=
  mul_pos (by exact_mod_cast positive) (unit_pos e)

theorem compare_zero_finite (s t : Sign) : (UnpackedFloat.zero s).compare (.finite t n f positive') =
    some (compare 0 ((t.apply n : ℤ) * 2 ^ f : ℚ)) := by
  have magnitude := magnitude_pos positive' f
  cases t with
  | positive =>
    rw [apply_positive, compare_lt_iff_lt.mpr magnitude]
    rfl
  | negative =>
    rw [apply_negative, neg_mul, compare_gt_iff_gt.mpr (neg_lt_zero.mpr magnitude)]
    rfl

theorem compare_finite_zero (s t : Sign) : (UnpackedFloat.finite s m e positive).compare (.zero t) =
    some (compare ((s.apply m : ℤ) * 2 ^ e : ℚ) 0) := by
  have magnitude := magnitude_pos positive e
  cases s with
  | positive =>
    rw [apply_positive, compare_gt_iff_gt.mpr magnitude]
    rfl
  | negative =>
    rw [apply_negative, neg_mul, compare_lt_iff_lt.mpr (neg_lt_zero.mpr magnitude)]
    rfl

theorem compare_finite (left : Canonical m e) (right : Canonical n f) (s t : Sign) :
    (UnpackedFloat.finite s m e positive).compare (.finite t n f positive') =
      some (compare ((s.apply m : ℤ) * 2 ^ e : ℚ) ((t.apply n : ℤ) * 2 ^ f)) := by
  have magnitude := magnitude_pos positive e
  have magnitude' := magnitude_pos positive' f
  have compared := left.compare_eq right
  cases s with
  | positive =>
    cases t with
    | positive =>
      rw [apply_positive, apply_positive, ← compared]
      rfl
    | negative =>
      rw [apply_positive, apply_negative, neg_mul, compare_gt_iff_gt.mpr (by linarith)]
      rfl
  | negative =>
    cases t with
    | positive =>
      rw [apply_positive, apply_negative, neg_mul, compare_lt_iff_lt.mpr (by linarith)]
      rfl
    | negative =>
      rw [apply_negative, apply_negative, neg_mul, neg_mul, compare_neg, ← compared]
      rfl

/-- Finite reals compare as their exact values do. -/
theorem compare_unpack (left : exactValue? x = some a) (right : exactValue? y = some b) :
    x.toModel.unpack.compare y.toModel.unpack = some (compare a b) := by
  rcases exactValue?_cases left with ⟨s, unpackedX, rfl⟩ | ⟨s, m, e, positive, unpackedX, canonicalX, rfl⟩
  · rcases exactValue?_cases right with ⟨t, unpackedY, rfl⟩ | ⟨t, n, f, positive', unpackedY, canonicalY, rfl⟩
    · rw [unpackedX, unpackedY, compare_eq_iff_eq.mpr rfl]
      rfl
    · rw [unpackedX, unpackedY, compare_zero_finite]
  · rcases exactValue?_cases right with ⟨t, unpackedY, rfl⟩ | ⟨t, n, f, positive', unpackedY, canonicalY, rfl⟩
    · rw [unpackedX, unpackedY, compare_finite_zero]
    · rw [unpackedX, unpackedY, compare_finite canonicalX canonicalY]

end Unpacked

section Order

variable (left : exactValue? x = some a) (right : exactValue? y = some b)
include left right

theorem beq_iff_value_eq : (x == y) = true ↔ a = b := by
  change (x.toModel.unpack.compare y.toModel.unpack == some .eq) = true ↔ _
  rw [compare_unpack left right, beq_iff_eq, Option.some_inj, compare_eq_iff_eq]

theorem lt_iff_value_lt : x < y ↔ a < b := by
  rw [lt_iff]
  change (x.toModel.unpack.compare y.toModel.unpack == some .lt) = true ↔ _
  rw [compare_unpack left right, beq_iff_eq, Option.some_inj, compare_lt_iff_lt]

theorem le_iff_value_le : x ≤ y ↔ a ≤ b := by
  rw [le_iff, UnpackedFloat.le, compare_unpack left right, Option.any_some, Ordering.isLE_iff_ne_gt]
  exact compare_le_iff_le

end Order

theorem exactValue?_ofNat_zero : exactValue? 0 = some 0 := by rw [exactValue?, unpack_ofNat_zero]

theorem exactValue?_ofNat_one : exactValue? 1 = some 1 := by
  have whole : toInt? 1 = some 1 := by rfl
  rw [toInt?_eq_some_iff.mp whole, Int.cast_one]

section Zero

variable (known : exactValue? x = some a)
include known

theorem beq_zero_iff : (x == 0) = true ↔ a = 0 := beq_iff_value_eq known exactValue?_ofNat_zero

theorem lt_zero_iff : x < 0 ↔ a < 0 := lt_iff_value_lt known exactValue?_ofNat_zero

theorem zero_lt_iff : 0 < x ↔ 0 < a := lt_iff_value_lt exactValue?_ofNat_zero known

theorem exactValue?_abs : exactValue? (abs x) = some |a| := by
  unfold abs
  split
  · rename_i negative
    rw [exactValue?_neg known, abs_of_neg ((lt_zero_iff known).mp negative)]
  · rename_i nonnegative
    rw [known, abs_of_nonneg (not_lt.mp fun negative => nonnegative ((lt_zero_iff known).mpr negative))]

end Zero

end Calculator.Binary64
