import Calculator.Binary64.Division
import Calculator.Binary64.Rounding
import Calculator.Proofs.Binary64.Comparison
import Calculator.Proofs.Binary64.Representable

namespace Calculator.Binary64

open Float.Model.UnpackedFloat (Sign)

def towardZero (q : ℚ) : ℤ := if 0 ≤ q then ⌊q⌋ else ⌈q⌉

section TowardZero

theorem towardZero_intCast (n : ℤ) : towardZero n = n := by simp [towardZero]

theorem towardZero_neg (q : ℚ) : towardZero (-q) = -towardZero q := by
  rcases lt_trichotomy q 0 with negative | rfl | positive
  · rw [towardZero, if_pos (neg_nonneg.mpr negative.le), towardZero, if_neg negative.not_ge, Int.floor_neg]
  · rw [neg_zero]
    rfl
  · rw [towardZero, if_neg (neg_lt_zero.mpr positive).not_ge, towardZero, if_pos positive.le, Int.ceil_neg]

theorem towardZero_natCast_div (m n : ℕ) : towardZero (m / n) = (m / n : ℕ) := by
  have nonnegative : (0 : ℚ) ≤ m / n := div_nonneg (Nat.cast_nonneg m) (Nat.cast_nonneg n)
  rw [towardZero, if_pos nonnegative, Rat.floor_natCast_div_natCast]
  rfl

theorem abs_sub_towardZero_lt (q : ℚ) : |q - towardZero q| < 1 := by
  unfold towardZero
  split
  · rw [abs_of_nonneg (sub_nonneg.mpr (Int.floor_le q))]
    linarith [Int.lt_floor_add_one q]
  · rw [abs_of_nonpos (sub_nonpos.mpr (Int.le_ceil q))]
    linarith [Int.ceil_lt_add_one q]

theorem towardZero_signed (s : Sign) (m n : ℕ) : towardZero ((s.apply m : ℤ) / n) = s.apply (m / n : ℕ) := by
  cases s with
  | positive =>
    rw [apply_positive, towardZero_natCast_div]
    rfl
  | negative =>
    rw [apply_negative, neg_div, towardZero_neg, towardZero_natCast_div]
    rfl

theorem sub_mul_towardZero (s t : Sign) (m n : ℕ) :
    ((s.apply m : ℤ) : ℚ) - (t.apply n : ℤ) * towardZero ((s.apply m : ℤ) / (t.apply n : ℤ)) =
      (s.apply (m % n : ℕ) : ℤ) := by
  have taken :
      ((t.apply n : ℤ) * towardZero ((s.apply m : ℤ) / (t.apply n : ℤ)) : ℚ) = n * (s.apply (m / n : ℕ) : ℤ) := by
    cases t with
    | positive => rw [apply_positive, towardZero_signed]
    | negative => rw [apply_negative, div_neg, towardZero_neg, towardZero_signed, Int.cast_neg, neg_mul_neg]
  have split : ((m % n + n * (m / n) : ℕ) : ℚ) = m := by rw [Nat.mod_add_div]
  rw [taken, apply_eq_mul s m, apply_eq_mul s (m / n), apply_eq_mul s (m % n), ← split]
  push_cast
  ring

theorem floor_eq_towardZero (q : ℚ) : ⌊q⌋ = if q < towardZero q then towardZero q - 1 else towardZero q := by
  unfold towardZero
  by_cases nonnegative : 0 ≤ q
  · rw [if_pos nonnegative, if_neg (Int.floor_le q).not_gt]
  · rw [if_neg nonnegative]
    have below := Int.floor_le q
    have above := Int.le_ceil q
    split
    · rename_i cut
      have next := Int.ceil_le_floor_add_one q
      have apart : ⌊q⌋ < ⌈q⌉ := by exact_mod_cast below.trans_lt cut
      omega
    · rename_i whole
      rw [Int.floor_eq_iff]
      exact ⟨above.antisymm (not_lt.mp whole) ▸ le_rfl, by linarith [not_lt.mp whole]⟩

end TowardZero

variable {x y : Float} {a b : ℚ}

section Parts

theorem mapMagnitude_cases (f : ℕ → ℕ → ℕ) (known : exactValue? x = some a) :
    (∃ n : ℤ, a = n ∧ mapMagnitude f x = x) ∨
      ∃ sign m k, Canonical m (.negSucc k) ∧ a = (sign.apply (m : ℤ) : ℤ) / (2 ^ (k + 1) : ℕ) ∧
        mapMagnitude f x = nearest sign (f m (2 ^ (k + 1))) 0 := by
  unfold mapMagnitude
  rcases exactValue?_cases known with ⟨_, unpacked, rfl⟩ | ⟨sign, m, e, positive, unpacked, canonical, rfl⟩
  · rw [unpacked]
    exact .inl ⟨0, Int.cast_zero.symm, rfl⟩
  · rw [unpacked]
    cases e with
    | ofNat k =>
      refine .inl ⟨sign.apply m * 2 ^ k, ?_, rfl⟩
      rw [Int.ofNat_eq_natCast, zpow_natCast]
      push_cast
      rfl
    | negSucc k =>
      refine .inr ⟨sign, m, k, canonical, ?_, rfl⟩
      rw [zpow_negSucc, div_eq_mul_inv]
      push_cast
      rfl

theorem exactValue?_truncate (known : exactValue? x = some a) : exactValue? (truncate x) = some (towardZero a : ℚ) := by
  rcases mapMagnitude_cases (· / ·) known with ⟨n, rfl, same⟩ | ⟨sign, m, k, canonical, rfl, cut⟩
  · rw [truncate, same, towardZero_intCast, known]
  · have short : m / 2 ^ (k + 1) < 2 ^ 53 := (Nat.div_le_self _ _).trans_lt canonical.mantissa_lt
    rw [truncate, cut, exactValue?_nearest_of_short sign short (by decide) (by decide), zpow_zero, mul_one,
      towardZero_signed]

theorem representable_fraction (known : exactValue? x = some a) : Representable (a - towardZero a) := by
  rcases mapMagnitude_cases (· / ·) known with ⟨n, rfl, -⟩ | ⟨sign, m, k, canonical, rfl, -⟩
  · rw [towardZero_intCast, sub_self]
    exact nearestReal?_zero
  · have short : m % 2 ^ (k + 1) < 2 ^ 53 := (Nat.mod_le _ _).trans_lt canonical.mantissa_lt
    have rest := sub_mul_towardZero sign .positive m (2 ^ (k + 1))
    have unit : (0 : ℚ) < (2 ^ (k + 1) : ℕ) := by positivity
    have scaled := representable_signed sign short canonical.exponent_ge canonical.exponent_le
    rw [← rest, apply_positive, zpow_negSucc, ← div_eq_mul_inv, sub_div] at scaled
    push_cast at scaled unit ⊢
    rwa [mul_div_cancel_left₀ _ unit.ne'] at scaled

theorem exactValue?_fraction (known : exactValue? x = some a) : exactValue? (fraction x) = some (a - towardZero a) :=
  (exactValue?_sub known (exactValue?_truncate known)).trans (representable_fraction known)

theorem hasNoFraction_iff (known : exactValue? x = some a) : hasNoFraction x = true ↔ ∃ n : ℤ, a = n := by
  rw [hasNoFraction, beq_zero_iff (exactValue?_fraction known), sub_eq_zero]
  constructor
  · intro whole
    exact ⟨towardZero a, whole⟩
  · rintro ⟨n, rfl⟩
    rw [towardZero_intCast]

end Parts

/-- The remainder of a division of finite reals is not rounded: over the finer of the two units it is the remainder of
the mantissas. -/
theorem exactValue?_remainder (left : exactValue? x = some a) (right : exactValue? y = some b) (nonzero : b ≠ 0) :
    exactValue? (remainder x y) = some (a - b * towardZero (a / b)) := by
  unfold remainder
  rcases exactValue?_cases right with ⟨_, _, rfl⟩ | ⟨t, n, f, positive', unpackedY, canonicalY, rfl⟩
  · exact absurd rfl nonzero
  rcases exactValue?_cases left with ⟨_, unpackedX, rfl⟩ | ⟨s, m, e, positive, unpackedX, canonicalX, rfl⟩
  · rw [unpackedX, unpackedY]
    simp only
    rw [left, zero_div, ← Int.cast_zero, towardZero_intCast, Int.cast_zero, mul_zero, sub_zero]
  · rw [unpackedX, unpackedY]
    simp only
    have finer : (if e ≤ f then e else f) = min e f := rfl
    rw [finer]
    have toFirst := apply_shiftLeft s m (min_le_left e f)
    have toSecond := apply_shiftLeft t n (min_le_right e f)
    have short : m <<< (e - min e f).toNat % n <<< (f - min e f).toNat < 2 ^ 53 := by
      by_cases finest : e ≤ f
      · rw [min_eq_left finest, sub_self]
        exact (Nat.mod_le _ _).trans_lt canonicalX.mantissa_lt
      · rw [min_eq_right (le_of_not_ge finest), sub_self]
        exact (Nat.mod_lt _ positive').trans canonicalY.mantissa_lt
    have least : -1074 ≤ min e f := le_min canonicalX.exponent_ge canonicalY.exponent_ge
    have most : min e f ≤ 971 := (min_le_left e f).trans canonicalX.exponent_le
    rw [← toFirst, ← toSecond, mul_div_mul_right _ _ (unit_pos _).ne', mul_right_comm, ← sub_mul, sub_mul_towardZero]
    simp only [Nat.shiftLeft_eq] at short ⊢
    exact exactValue?_nearest_of_short s short least most

/-- Moved into the range of one divisor, the remainder is rounded, but its exact value is that of a division toward
negative infinity. -/
theorem exactValue?_euclideanRemainder (left : exactValue? x = some a) (right : exactValue? y = some b)
    (positive : 0 < b) : exactValue? (euclideanRemainder x y) = some (rounded (a - b * ⌊a / b⌋)) := by
  have taken := exactValue?_remainder left right positive.ne'
  have below : a - b * towardZero (a / b) < 0 ↔ a / b < towardZero (a / b) := by
    rw [sub_neg, ← div_lt_iff₀' positive]
  unfold euclideanRemainder
  dsimp only
  rw [floor_eq_towardZero]
  by_cases cut : a / b < towardZero (a / b)
  · have moved : a - b * towardZero (a / b) + b = a - b * (towardZero (a / b) - 1 : ℤ) := by
      push_cast
      ring
    have proper : a - b * towardZero (a / b) + b = b * Int.fract (a / b) := by
      rw [moved, Int.fract, floor_eq_towardZero, if_pos cut, mul_sub, mul_div_cancel₀ _ positive.ne']
    have small : |a - b * towardZero (a / b) + b| ≤ b := by
      have rest := Int.fract_nonneg (a / b)
      rw [proper, abs_of_nonneg (by positivity)]
      exact mul_le_of_le_one_right positive.le (Int.fract_lt_one (a / b)).le
    have bound : Representable b := nearestReal?_of_exactValue? right
    rw [if_pos cut, if_pos ((lt_zero_iff taken).mpr (below.mpr cut)), exactValue?_add taken (exactValue?_abs right),
      abs_of_pos positive, bound.nearestReal?_of_abs_le small, moved]
  · have exact : Representable (a - b * towardZero (a / b)) := nearestReal?_of_exactValue? taken
    rw [if_neg cut, if_neg ((lt_zero_iff taken).not.mpr (below.not.mpr cut)), taken, exact.rounded_eq]

end Calculator.Binary64
