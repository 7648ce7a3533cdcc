import Calculator.Proofs.Binary64.Reciprocal
import Calculator.Proofs.Binary64.Values
import Calculator.Proofs.Decimal.Literal

namespace Calculator

namespace Decimal

theorem exactValue?_toReal_whole (n : ℕ) : Binary64.exactValue? (toReal ⟨n, 0⟩) = Binary64.nearestReal? n := by
  change Binary64.exactValue? (.ofModel (.pack (.ofScientific .binary64 n 0))) = _
  rcases Nat.eq_zero_or_pos n with rfl | positive
  · rw [Nat.cast_zero, Binary64.nearestReal?_zero]
    exact Binary64.exactValue?_zero .positive
  · have shifted : 0 < n <<< 53 * 1 := by
      rw [Nat.shiftLeft_eq]
      positivity
    have digits : 53 ≤ (n <<< 53 * 1).log2 := by
      rw [Nat.le_log2 shifted.ne', Nat.shiftLeft_eq, Nat.mul_one]
      exact Nat.le_mul_of_pos_left _ positive
    have fine : (-53 + 0 : ℤ) ≤ Binary64.target (n <<< 53 * 1) (-53 + 0) := by
      unfold Binary64.target
      omega
    have value : ((n <<< 53 * 1 : ℕ) : ℚ) * 2 ^ (-53 + 0 : ℤ) = n := by
      rw [Nat.shiftLeft_eq, Nat.mul_one, zpow_add₀ two_ne_zero, zpow_neg]
      push_cast
      ring
    rw [ofScientific_whole positive.ne',
      Binary64.exactValue?_roundWithAccuracy (Binary64.tells_exact _) (.inl shifted) fine, value]
    simp [Float.Model.UnpackedFloat.Sign.apply]

end Decimal

namespace Binary64

open Float.Model (Format UnpackedFloat)

variable {n : ℕ}

theorem ofNat_eq_of_long (long : 2 ^ 53 ≤ n) : Float.ofNat n = Decimal.toReal ⟨n, 0⟩ := by
  change Float.ofScientific n false 0 = _
  unfold Float.ofScientific
  rw [dif_neg fun short => short.1.not_ge long]
  rfl

theorem exactValue?_ofNat (n : ℕ) : exactValue? (Float.ofNat n) = nearestReal? n := by
  rcases lt_or_ge n (2 ^ 53) with short | long
  · rw [toInt?_eq_some_iff.mp (toInt?_ofNat short)]
    exact (nearestReal?_of_short (n := n) (by rw [Nat.abs_cast]; omega)).symm
  · rw [ofNat_eq_of_long long, Decimal.exactValue?_toReal_whole]

theorem unpack_ofNat_of_overflow (past : exactValue? (Float.ofNat n) = none) :
    (Float.ofNat n).toModel.unpack = .infinity .positive := by
  rcases lt_or_ge n (2 ^ 53) with short | long
  · rw [toInt?_eq_some_iff.mp (toInt?_ofNat short)] at past
    cases past
  · have nonzero : n ≠ 0 := by
      rintro rfl
      exact absurd long (by decide)
    have rounds : Float.ofNat n = .ofModel (.pack (.roundWithAccuracy .binary64 .positive (n <<< 53 * 1) (-53 + 0) .exact)) := by
      rw [ofNat_eq_of_long long, ← Decimal.ofScientific_whole nonzero]
      rfl
    rw [rounds] at past ⊢
    exact unpack_roundWithAccuracy_of_overflow past

end Binary64

end Calculator
