import Calculator.Proofs.Binary64.CorrectRounding

namespace Calculator.Binary64

open Float.Model (Format UnpackedFloat totalExponent)
open Float.Model.UnpackedFloat (Sign ExtendedMantissa roundWithAccuracy accuracyOfFraction)

variable {x y : Float} {a b : ℚ} {sign : Sign} {m : ℕ} {e : ℤ}

theorem exactValue?_cases (known : exactValue? x = some a) :
    (∃ sign, x.toModel.unpack = .zero sign ∧ a = 0) ∨
      ∃ sign m e, ∃ positive : 0 < m, x.toModel.unpack = .finite sign m e positive ∧ Canonical m e ∧
        a = (sign.apply m : ℤ) * 2 ^ e := by
  rcases isFinite_cases (isFinite_iff_exactValue?.mpr ⟨a, known⟩) with
    ⟨sign, unpacked⟩ | ⟨sign, m, e, positive, unpacked, canonical⟩
  · rw [exactValue?, unpacked] at known
    exact .inl ⟨sign, unpacked, (Option.some.inj known).symm⟩
  · rw [exactValue?_of_unpack unpacked] at known
    exact .inr ⟨sign, m, e, positive, unpacked, canonical, (Option.some.inj known).symm⟩

theorem exactValue?_pack_canonical {positive : 0 < m} (canonical : Canonical m e) :
    exactValue? (.ofModel (.pack (.finite sign m e positive))) = some ((sign.apply m : ℤ) * 2 ^ e : ℚ) :=
  exactValue?_of_unpack (unpack_pack positive canonical)

theorem Canonical.rounded (canonical : Canonical m e) (sign : Sign) :
    Binary64.rounded ((sign.apply m : ℤ) * 2 ^ e) = (sign.apply m : ℤ) * 2 ^ e := by
  have below := canonical.mantissa_lt
  refine rounded_of_short ?_ canonical.exponent_ge
  cases sign <;> simp [Sign.apply] <;> omega

theorem Canonical.abs_lt (canonical : Canonical m e) (positive : 0 < m) (sign : Sign) :
    |((sign.apply m : ℤ) * 2 ^ e : ℚ)| < 2 ^ 1024 := by
  have packed : exactValue? (.ofModel (.pack (.finite sign m e positive))) = _ :=
    exactValue?_pack_canonical canonical
  rw [exactValue?_pack positive canonical.mantissa_lt canonical.exponent_ge canonical.normal_or_least] at packed
  split at packed
  · assumption
  · cases packed

theorem nearestReal?_zero : nearestReal? 0 = some 0 := by
  rw [nearestReal?, rounded_zero, abs_zero, if_pos (by positivity)]

theorem Canonical.nearestReal? (canonical : Canonical m e) (positive : 0 < m) (sign : Sign) :
    Binary64.nearestReal? ((sign.apply m : ℤ) * 2 ^ e) = some ((sign.apply m : ℤ) * 2 ^ e : ℚ) := by
  rw [Binary64.nearestReal?, canonical.rounded, if_pos (canonical.abs_lt positive sign)]

theorem nearestReal?_of_exactValue? (known : exactValue? x = some a) : nearestReal? a = some a := by
  rcases exactValue?_cases known with ⟨_, _, rfl⟩ | ⟨sign, m, e, positive, _, canonical, rfl⟩
  · exact nearestReal?_zero
  · exact canonical.nearestReal? positive sign

theorem apply_neg (sign : Sign) (n : ℤ) : (-sign).apply n = -sign.apply n := by
  cases sign with
  | positive => rfl
  | negative => exact (neg_neg n).symm

theorem exactValue?_neg (known : exactValue? x = some a) : exactValue? (-x) = some (-a) := by
  change exactValue? (.ofModel (.pack x.toModel.unpack.neg)) = _
  rcases exactValue?_cases known with ⟨sign, unpacked, rfl⟩ | ⟨sign, m, e, positive, unpacked, canonical, rfl⟩
  · rw [unpacked, neg_zero]
    exact exactValue?_zero _
  · rw [unpacked, ← neg_mul, ← Int.cast_neg, ← apply_neg]
    exact exactValue?_pack_canonical canonical

section Rounding

theorem roundWithAccuracy_zero (sign : Sign) (e : ℤ) : roundWithAccuracy .binary64 sign 0 e .exact = .zero sign := by
  have nothing (k : ℕ) : (ExtendedMantissa.ofMantissaAndAccuracy 0 .exact >>> k).roundedMantissa = 0 := by
    have nearest := roundedMantissa_shiftRight (tells_exact 0) k
    rw [Nat.cast_zero, zero_div, ← Int.cast_zero, nearestEven_intCast] at nearest
    exact_mod_cast nearest
  have last (k : ℕ) : (ExtendedMantissa.ofMantissaAndAccuracy 0 .exact >>> k).mantissa = 0 := by
    rw [shiftRight_mantissa, ofMantissaAndAccuracy_mantissa, Nat.zero_div]
  unfold roundWithAccuracy UnpackedFloat.shiftToTargetExponent UnpackedFloat.shiftToExponent
  simp only [nothing, last]
  rfl

theorem exactValue?_nearest (sign : Sign) (m : ℕ) (e : ℤ) :
    exactValue? (nearest sign m e) = nearestReal? ((sign.apply m : ℤ) * 2 ^ e) := by
  have rounds : nearest sign m e = .ofModel (.pack (roundWithAccuracy .binary64 sign
      (m <<< (e - target m e).toNat) (e - (e - target m e).toNat) .exact)) := rfl
  generalize shift : (e - target m e).toNat = k at rounds
  rw [rounds]
  rcases Nat.eq_zero_or_pos m with rfl | positive
  · rw [Nat.zero_shiftLeft, roundWithAccuracy_zero, exactValue?_zero, apply_eq_mul, Nat.cast_zero, mul_zero,
      zero_mul, nearestReal?_zero]
  · have shifted : 0 < m <<< k := by
      rw [Nat.shiftLeft_eq]
      positivity
    have digits : m.log2 + k ≤ (m <<< k).log2 := by
      rw [Nat.le_log2 shifted.ne', Nat.shiftLeft_eq, Nat.pow_add]
      exact Nat.mul_le_mul_right _ (Nat.log2_self_le positive.ne')
    have fine : e - k ≤ target (m <<< k) (e - k) := by
      unfold target at shift ⊢
      omega
    have value : ((m <<< k : ℕ) : ℚ) * 2 ^ (e - k) = m * 2 ^ e := by
      rw [Nat.shiftLeft_eq, zpow_sub₀ two_ne_zero, zpow_natCast]
      push_cast
      field_simp
    rw [exactValue?_roundWithAccuracy (tells_exact _) (.inl shifted) fine, value, apply_eq_mul, mul_assoc]

theorem exactValue?_normalize (n e : ℤ) (zero : Sign) :
    exactValue? (.ofModel (.pack (UnpackedFloat.normalize .binary64 n e zero))) = nearestReal? (n * 2 ^ e) := by
  unfold UnpackedFloat.normalize
  rcases lt_trichotomy n 0 with negative | rfl | positive
  · rw [Int.compare_eq_lt.mpr negative]
    have magnitude : Sign.negative.apply ((-n).toNat : ℤ) = n := by
      change -((-n).toNat : ℤ) = n
      omega
    have rounds := exactValue?_nearest .negative (-n).toNat e
    rw [magnitude] at rounds
    exact rounds
  · rw [Int.cast_zero, zero_mul, nearestReal?_zero]
    exact exactValue?_zero zero
  · rw [Int.compare_eq_gt.mpr positive]
    have magnitude : Sign.positive.apply (n.toNat : ℤ) = n := by
      change (n.toNat : ℤ) = n
      omega
    have rounds := exactValue?_nearest .positive n.toNat e
    rw [magnitude] at rounds
    exact rounds

end Rounding

section Sums

theorem apply_shiftLeft (sign : Sign) (m : ℕ) {e t : ℤ} (smaller : t ≤ e) :
    ((sign.apply ((m <<< (e - t).toNat : ℕ) : ℤ) : ℤ) * 2 ^ t : ℚ) = (sign.apply m : ℤ) * 2 ^ e := by
  obtain ⟨k, rfl⟩ := Int.exists_add_of_le smaller
  have shift : (t + k - t).toNat = k := by omega
  rw [shift, Nat.shiftLeft_eq, apply_eq_mul, apply_eq_mul, zpow_add₀ two_ne_zero, zpow_natCast]
  push_cast
  ring

theorem exactValue?_add (left : exactValue? x = some a) (right : exactValue? y = some b) :
    exactValue? (x + y) = nearestReal? (a + b) := by
  change exactValue? (.ofModel (.pack (UnpackedFloat.add .binary64 x.toModel.unpack y.toModel.unpack))) = _
  rcases exactValue?_cases left with ⟨s, unpackedX, rfl⟩ | ⟨s, m, e, positive, unpackedX, canonicalX, rfl⟩
  · rcases exactValue?_cases right with ⟨s', unpackedY, rfl⟩ | ⟨s', n, f, positive', unpackedY, canonicalY, rfl⟩
    · rw [unpackedX, unpackedY, add_zero, nearestReal?_zero]
      cases s <;> cases s' <;> exact exactValue?_zero _
    · rw [unpackedX, unpackedY, zero_add, canonicalY.nearestReal? positive']
      exact exactValue?_pack_canonical canonicalY
  · rcases exactValue?_cases right with ⟨s', unpackedY, rfl⟩ | ⟨s', n, f, positive', unpackedY, canonicalY, rfl⟩
    · rw [unpackedX, unpackedY, add_zero, canonicalX.nearestReal? positive]
      exact exactValue?_pack_canonical canonicalX
    · rw [unpackedX, unpackedY]
      refine (exactValue?_normalize _ (min e f) .positive).trans ?_
      rw [Int.cast_add, add_mul, apply_shiftLeft s m (min_le_left e f), apply_shiftLeft s' n (min_le_right e f)]

theorem sub_eq_add_neg_unpacked (u w : UnpackedFloat) :
    UnpackedFloat.sub .binary64 u w = UnpackedFloat.add .binary64 u w.neg := by
  cases u <;> cases w <;> try rfl
  rename_i s m e positive s' n f positive'
  unfold UnpackedFloat.sub UnpackedFloat.add UnpackedFloat.neg
  simp only [apply_neg, Int.sub_eq_add_neg]

theorem exactValue?_sub (left : exactValue? x = some a) (right : exactValue? y = some b) :
    exactValue? (x - y) = nearestReal? (a - b) := by
  rw [sub_eq_add_neg, ← exactValue?_add left (exactValue?_neg right)]
  change exactValue? (.ofModel (.pack (UnpackedFloat.sub .binary64 x.toModel.unpack y.toModel.unpack))) =
    exactValue? (.ofModel (.pack (UnpackedFloat.add .binary64 x.toModel.unpack (-y).toModel.unpack)))
  have negated : (-y).toModel.unpack = y.toModel.unpack.neg := by
    change (Float.Model.pack y.toModel.unpack.neg).unpack = _
    rcases exactValue?_cases right with ⟨s, unpacked, _⟩ | ⟨s, m, e, positive, unpacked, canonical, _⟩
    · rw [unpacked]
      cases s <;> rfl
    · rw [unpacked]
      exact unpack_pack positive canonical
  rw [sub_eq_add_neg_unpacked, negated]

end Sums

section Products

theorem apply_one_mul (s s' : Sign) : (((s * s').apply 1 : ℤ) : ℚ) = (s.apply 1 : ℤ) * (s'.apply 1 : ℤ) := by
  have signs : (s * s').apply 1 = s.apply 1 * s'.apply 1 := by cases s <;> cases s' <;> rfl
  exact_mod_cast signs

theorem apply_one_div (s s' : Sign) : (((s / s').apply 1 : ℤ) : ℚ) = (s.apply 1 : ℤ) / (s'.apply 1 : ℤ) := by
  have signs : (s / s').apply 1 * s'.apply 1 = s.apply 1 := by cases s <;> cases s' <;> rfl
  have nonzero : ((s'.apply 1 : ℤ) : ℚ) ≠ 0 := by cases s' <;> simp [Sign.apply]
  rw [eq_div_iff nonzero]
  exact_mod_cast signs

theorem mul_fine {n : ℕ} {f : ℤ} (left : Canonical m e) (right : Canonical n f) (positive : 0 < m)
    (positive' : 0 < n) : e + f ≤ target (m * n) (e + f) := by
  have long : 2 ^ 52 ≤ m ∨ 2 ^ 52 ≤ n → 52 ≤ (m * n).log2 := by
    have product : m * n ≠ 0 := (Nat.mul_pos positive positive').ne'
    rintro (large | large)
    · exact (Nat.le_log2 product).mpr (large.trans (Nat.le_mul_of_pos_right m positive'))
    · exact (Nat.le_log2 product).mpr (large.trans (Nat.le_mul_of_pos_left n positive))
  unfold target
  rcases left.normal_or_least with large | least
  · have := long (.inl large)
    omega
  · rcases right.normal_or_least with large | least'
    · have := long (.inr large)
      omega
    · omega

theorem exactValue?_mul (left : exactValue? x = some a) (right : exactValue? y = some b) :
    exactValue? (x * y) = nearestReal? (a * b) := by
  change exactValue? (.ofModel (.pack (UnpackedFloat.mul .binary64 x.toModel.unpack y.toModel.unpack))) = _
  rcases exactValue?_cases left with ⟨s, unpackedX, rfl⟩ | ⟨s, m, e, positive, unpackedX, canonicalX, rfl⟩
  · rw [zero_mul, nearestReal?_zero, unpackedX]
    rcases exactValue?_cases right with ⟨s', unpackedY, _⟩ | ⟨s', _, _, _, unpackedY, _⟩ <;>
      · rw [unpackedY]
        exact exactValue?_zero _
  · rcases exactValue?_cases right with ⟨s', unpackedY, rfl⟩ | ⟨s', n, f, positive', unpackedY, canonicalY, rfl⟩
    · rw [mul_zero, nearestReal?_zero, unpackedX, unpackedY]
      exact exactValue?_zero _
    · have product : 0 < m * n := Nat.mul_pos positive positive'
      have fine := mul_fine canonicalX canonicalY positive positive'
      rw [unpackedX, unpackedY]
      refine (exactValue?_roundWithAccuracy (tells_exact (m * n)) (.inl product) fine).trans ?_
      rw [apply_one_mul, apply_eq_mul s, apply_eq_mul s', zpow_add₀ two_ne_zero]
      push_cast
      congr 1
      ring

theorem div_fine {n k : ℕ} {f t : ℤ} (positive : 0 < m) (positive' : 0 < n)
    (exponent : t = min (e - f) (max (m.log2 + 1 + e - (n.log2 + 1 + f) - 53) (-1074))) (shift : e - f = t + k) :
    (0 < m * 2 ^ k / n ∨ t ≤ -1074) ∧ t ≤ target (m * 2 ^ k / n) t := by
  by_cases least : t ≤ -1074
  · exact ⟨.inr least, least.trans (le_target _ _)⟩
  · obtain ⟨j, digits⟩ : ∃ j, m.log2 + k = j + (n.log2 + 1) := Nat.exists_eq_add_of_le' (by omega)
    have quotient : 2 ^ j ≤ m * 2 ^ k / n := by
      rw [Nat.le_div_iff_mul_le positive']
      calc 2 ^ j * n ≤ 2 ^ j * 2 ^ (n.log2 + 1) := Nat.mul_le_mul_left _ Nat.lt_log2_self.le
        _ = 2 ^ m.log2 * 2 ^ k := by rw [← Nat.pow_add, ← digits, Nat.pow_add]
        _ ≤ m * 2 ^ k := Nat.mul_le_mul_right _ (Nat.log2_self_le positive.ne')
    have nonzero : 0 < m * 2 ^ k / n := (Nat.two_pow_pos j).trans_le quotient
    have long := (Nat.le_log2 nonzero.ne').mpr quotient
    refine ⟨.inl nonzero, ?_⟩
    unfold target
    omega

theorem exactValue?_div_finite {n : ℕ} {f : ℤ} (s s' : Sign) (positive : 0 < m) (positive' : 0 < n) :
    exactValue? (.ofModel (.pack (UnpackedFloat.div .binary64 (.finite s m e positive) (.finite s' n f positive')))) =
      nearestReal? ((s.apply m : ℤ) * 2 ^ e / ((s'.apply n : ℤ) * 2 ^ f)) := by
  generalize exponent : min (e - f) (max ((m.log2 : ℤ) + 1 + e - (n.log2 + 1 + f) - 53) (-1074)) = t
  obtain ⟨k, shift⟩ : ∃ k : ℕ, e - f = t + k := Int.exists_add_of_le (by omega)
  have amount : (e - f - t).toNat = k := by omega
  have divides : UnpackedFloat.divCore .binary64 m e n f =
      (m * 2 ^ k / n, t, accuracyOfFraction (m * 2 ^ k % n) n) := by
    have core : UnpackedFloat.divCore .binary64 m e n f =
        (m <<< (e - f - t).toNat / n, t, accuracyOfFraction (m <<< (e - f - t).toNat % n) n) := by
      rw [← exponent]
      rfl
    rw [core, amount, Nat.shiftLeft_eq]
  obtain ⟨counted, fine⟩ := div_fine positive positive' exponent.symm shift
  have tells := tells_fraction (m * 2 ^ k / n) (Nat.mod_lt (m * 2 ^ k) positive')
  have divisor : (n : ℚ) ≠ 0 := by exact_mod_cast positive'.ne'
  have quotient : ((m * 2 ^ k / n : ℕ) : ℚ) + ((m * 2 ^ k % n : ℕ) : ℚ) / n = m * 2 ^ k / n := by
    have whole : ((n * (m * 2 ^ k / n) + m * 2 ^ k % n : ℕ) : ℚ) = m * 2 ^ k := by
      rw [Nat.div_add_mod]
      push_cast
      ring
    push_cast at whole
    field_simp
    linarith
  rw [quotient] at tells
  unfold UnpackedFloat.div
  simp only [divides]
  rw [exactValue?_roundWithAccuracy tells counted fine, apply_one_div, apply_eq_mul s, apply_eq_mul s']
  have exponents : (2 : ℚ) ^ e = 2 ^ f * (2 ^ t * 2 ^ k) := by
    rw [← zpow_natCast, ← zpow_add₀ two_ne_zero, ← zpow_add₀ two_ne_zero]
    congr 1
    omega
  rw [exponents]
  congr 1
  have unit := (unit_pos f).ne'
  field_simp

theorem exactValue?_div (left : exactValue? x = some a) (right : exactValue? y = some b) (nonzero : b ≠ 0) :
    exactValue? (x / y) = nearestReal? (a / b) := by
  change exactValue? (.ofModel (.pack (UnpackedFloat.div .binary64 x.toModel.unpack y.toModel.unpack))) = _
  rcases exactValue?_cases right with ⟨_, _, rfl⟩ | ⟨s', n, f, positive', unpackedY, canonicalY, rfl⟩
  · exact absurd rfl nonzero
  rcases exactValue?_cases left with ⟨s, unpackedX, rfl⟩ | ⟨s, m, e, positive, unpackedX, canonicalX, rfl⟩
  · rw [zero_div, nearestReal?_zero, unpackedX, unpackedY]
    exact exactValue?_zero _
  · rw [unpackedX, unpackedY]
    exact exactValue?_div_finite s s' positive positive'

end Products

theorem exactValue?_ofInt (n : ℤ) : exactValue? (ofInt n) = nearestReal? n := by
  have rounds := exactValue?_nearest (if n < 0 then .negative else .positive) n.natAbs 0
  have magnitude : (if n < 0 then Sign.negative else .positive).apply (n.natAbs : ℤ) = n := by
    split
    · change -(n.natAbs : ℤ) = n
      omega
    · change (n.natAbs : ℤ) = n
      omega
  rw [magnitude, zpow_zero, mul_one] at rounds
  exact rounds

end Calculator.Binary64
