import Calculator.Proofs.Binary64.Comparison
import Calculator.Proofs.Binary64.Representable

namespace Calculator.Binary64

open Float.Model (UnpackedFloat)
open Float.Model.UnpackedFloat (Sign Accuracy roundWithAccuracy)

variable {x y : Float} {a b : ℚ} {sign : Sign} {m : ℕ} {e : ℤ}

section Overflow

theorem unpack_pack_of_overflow {positive : 0 < m}
    (past : ¬ (Float.ofModel (.pack (.finite sign m e positive))).isFinite = true) :
    (Float.Model.pack (.finite sign m e positive)).unpack = .infinity sign := by
  by_cases great : 2 ^ 11 ≤ (e + 1023 + 52).toNat + 1
  · change UnpackedFloat.unpack .binary64 (UnpackedFloat.pack .binary64 _) = _
    rw [pack_finite, if_pos great]
    cases sign <;> rfl
  · -- an exponent in range is not that of an infinity
    have notFull : BitVec.ofNat 11 (e + 1023 + 52).toNat ≠ -1#11 := by
      intro full
      have exponent := congrArg BitVec.toNat full
      rw [BitVec.toNat_ofNat, Nat.mod_eq_of_lt (by omega), show (-1#11).toNat = 2047 by decide] at exponent
      omega
    apply absurd _ past
    change (UnpackedFloat.unpack .binary64 (UnpackedFloat.pack .binary64 _)).isFinite = true
    rw [pack_finite, if_neg great]
    split
    · exact isFinite_packComponents notFull
    · exact isFinite_packComponents (by decide)

theorem unpack_roundWithAccuracy_of_overflow {accuracy : Accuracy}
    (past : exactValue? (.ofModel (.pack (roundWithAccuracy .binary64 sign m e accuracy))) = none) :
    (Float.Model.pack (roundWithAccuracy .binary64 sign m e accuracy)).unpack = .infinity sign := by
  unfold roundWithAccuracy at past ⊢
  simp only at past ⊢
  split at past
  · rw [exactValue?_zero] at past
    cases past
  · rename_i positive
    rw [dif_neg positive]
    apply unpack_pack_of_overflow
    rw [isFinite_iff_exactValue?, past]
    simp

theorem unpack_div_of_overflow {s t : Sign} {n : ℕ} {f : ℤ} {positive : 0 < m} {positive' : 0 < n}
    (left : x.toModel.unpack = .finite s m e positive) (right : y.toModel.unpack = .finite t n f positive')
    (past : exactValue? (x / y) = none) : (x / y).toModel.unpack = .infinity (s / t) := by
  change exactValue? (.ofModel (.pack (UnpackedFloat.div .binary64 x.toModel.unpack y.toModel.unpack))) = none at past
  change (Float.Model.pack (UnpackedFloat.div .binary64 x.toModel.unpack y.toModel.unpack)).unpack = _
  rw [left, right] at past ⊢
  exact unpack_roundWithAccuracy_of_overflow past

end Overflow

theorem zero_lt_infinity_iff (unpacked : x.toModel.unpack = .infinity sign) : 0 < x ↔ sign = .positive := by
  rw [lt_iff, unpack_ofNat_zero, unpacked]
  cases sign with
  | positive => exact iff_of_true rfl rfl
  | negative => exact iff_of_false nofun nofun

theorem unpack_one : ∃ m e, ∃ positive : 0 < m, (1 : Float).toModel.unpack = .finite .positive m e positive :=
  ⟨_, _, _, rfl⟩

section Reciprocal

theorem rounded_inv_ne_zero (small : |b| < 2 ^ 1024) (nonzero : b ≠ 0) : rounded (1 / b) ≠ 0 := by
  have magnitude : (2 : ℚ) ^ (-1024 : ℤ) ≤ |rounded (1 / b)| := by
    apply le_abs_rounded (by decide)
    rw [abs_div, abs_one, zpow_neg, ← one_div]
    exact one_div_le_one_div_of_le (abs_pos.mpr nonzero) (by exact_mod_cast small.le)
  exact abs_pos.mp ((unit_pos _).trans_le magnitude)

theorem zero_lt_rounded_inv_iff (small : |b| < 2 ^ 1024) (nonzero : b ≠ 0) : 0 < rounded (1 / b) ↔ 0 < b := by
  constructor
  · intro positive
    by_contra negative
    have bound := rounded_mono (one_div_nonpos.mpr (not_lt.mp negative))
    rw [rounded_zero] at bound
    exact positive.not_ge bound
  · intro positive
    exact (rounded_nonneg (one_div_pos.mpr positive).le).lt_of_ne (rounded_inv_ne_zero small nonzero).symm

variable (known : exactValue? y = some b) (nonzero : b ≠ 0)
include known nonzero

theorem reciprocal_cases :
    exactValue? (1 / y) = some (rounded (1 / b)) ∨
      ∃ sign, (1 / y).toModel.unpack = .infinity sign ∧ (sign = .positive ↔ 0 < b) := by
  have quotient := exactValue?_div exactValue?_ofNat_one known nonzero
  by_cases inRange : |rounded (1 / b)| < 2 ^ 1024
  · left
    rw [quotient, nearestReal?, if_pos inRange]
  · right
    rw [nearestReal?, if_neg inRange] at quotient
    rcases exactValue?_cases known with ⟨_, _, rfl⟩ | ⟨t, n, f, positive, unpacked, _, rfl⟩
    · exact absurd rfl nonzero
    · obtain ⟨m, e, positive', unpackedOne⟩ := unpack_one
      refine ⟨_, unpack_div_of_overflow unpackedOne unpacked quotient, ?_⟩
      have magnitude := magnitude_pos positive f
      cases t with
      | positive =>
        rw [apply_positive]
        exact iff_of_true rfl magnitude
      | negative =>
        rw [apply_negative, neg_mul]
        have other : Sign.negative ≠ .positive := by simp
        exact iff_of_false other (neg_lt_zero.mpr magnitude).not_gt

theorem zero_lt_reciprocal_iff : 0 < 1 / y ↔ 0 < b := by
  have small := (representable_iff.mp (nearestReal?_of_exactValue? known)).1
  rcases reciprocal_cases known nonzero with value | ⟨sign, unpacked, same⟩
  · rw [zero_lt_iff value, zero_lt_rounded_inv_iff small nonzero]
  · rw [zero_lt_infinity_iff unpacked, same]

theorem reciprocal_ne_zero : exactValue? (1 / y) ≠ some 0 := by
  have small := (representable_iff.mp (nearestReal?_of_exactValue? known)).1
  rcases reciprocal_cases known nonzero with value | ⟨sign, unpacked, -⟩
  · rw [value, Ne, Option.some_inj]
    exact rounded_inv_ne_zero small nonzero
  · rw [exactValue?, unpacked]
    exact (Option.some_ne_none 0).symm

end Reciprocal

end Calculator.Binary64
