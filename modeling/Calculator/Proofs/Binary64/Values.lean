import Calculator.Proofs.Binary64.Comparison

namespace Calculator.Binary64

open Float.Model (Format UnpackedFloat)
open Float.Model.UnpackedFloat (Sign packComponents unpackMantissa unpackExponent unpackSign)

variable {x y : Float} {a : ℚ} {sign : Sign} {m : ℕ} {e : ℤ}

section Bits

theorem toBitVec_ofBitVec (b : BitVec 1) : (Sign.ofBitVec b).toBitVec = b := by
  rcases BitVec.eq_zero_or_eq_one b with rfl | rfl <;> rfl

theorem packComponents_unpack (bits : BitVec 64) : packComponents .binary64 (.ofBitVec (@unpackSign .binary64 bits))
    (@unpackExponent .binary64 bits) (@unpackMantissa .binary64 bits) = bits := by
  simp only [packComponents, toBitVec_ofBitVec, unpackSign, unpackExponent, unpackMantissa]
  apply BitVec.eq_of_getLsbD_eq
  intro i inside
  simp only [BitVec.getLsbD_append, BitVec.getLsbD_cast, BitVec.getLsbD_extractLsb]
  grind

theorem pack_unpack {bits : BitVec 64} {positive : 0 < m}
    (unpacked : UnpackedFloat.unpack .binary64 bits = .finite sign m e positive) :
    UnpackedFloat.pack .binary64 (.finite sign m e positive) = bits := by
  have fields := packComponents_unpack bits
  have fraction : (@unpackMantissa .binary64 bits).toNat < 2 ^ 52 := BitVec.isLt _
  have kept : BitVec.ofNat 52 m = @unpackMantissa .binary64 bits := by
    apply BitVec.eq_of_toNat_eq
    rw [BitVec.toNat_ofNat]
    obtain ⟨-, subnormal | normal⟩ := fields_of_unpack unpacked <;> omega
  obtain ⟨rfl, ⟨zero, mantissa, least⟩ | ⟨above, below, mantissa, exponent⟩⟩ := fields_of_unpack unpacked
  · have digits : m.log2 < 52 := (Nat.log2_lt positive.ne').mpr (by omega)
    have biased : @unpackExponent .binary64 bits = 0#11 := BitVec.eq_of_toNat_eq zero
    rw [pack_finite, if_neg (by omega), if_neg (by omega), kept, ← biased, fields]
  · have digits : m.log2 = 52 := (Nat.log2_eq_iff positive.ne').mpr (by omega)
    have biased : BitVec.ofNat 11 (e + 1023 + 52).toNat = @unpackExponent .binary64 bits := by
      apply BitVec.eq_of_toNat_eq
      rw [BitVec.toNat_ofNat]
      omega
    rw [pack_finite, if_neg (by omega), if_pos (by omega), kept, biased, fields]

theorem eq_of_unpack {positive : 0 < m} (first : x.toModel.unpack = .finite sign m e positive)
    (second : y.toModel.unpack = .finite sign m e positive) : x = y := by
  have bits := (pack_unpack first).symm.trans (pack_unpack second)
  obtain ⟨⟨u, validX⟩⟩ := x
  obtain ⟨⟨w, validY⟩⟩ := y
  have words : u = w := UInt64.toBitVec_inj.mp bits
  subst words
  rfl

end Bits

section Uniqueness

theorem target_of_canonical (canonical : Canonical m e) (positive : 0 < m) : target m e = e := by
  have short := canonical.log2_le
  have least := canonical.exponent_ge
  unfold target
  rcases canonical.normal_or_least with long | same
  · have digits := (Nat.le_log2 positive.ne').mpr long
    omega
  · omega

/-- The exponent of a real is the one that its exact value is rounded with. -/
theorem Canonical.unitExponent (canonical : Canonical m e) (positive : 0 < m) (sign : Sign) :
    Binary64.unitExponent ((sign.apply m : ℤ) * 2 ^ e) = e := by
  have mantissa : (m : ℚ) ≠ 0 := by exact_mod_cast positive.ne'
  have magnitude : Binary64.unitExponent ((sign.apply m : ℤ) * 2 ^ e) = Binary64.unitExponent (m * 2 ^ e) := by
    rw [Binary64.unitExponent, abs_signed, Binary64.unitExponent, abs_mul, Nat.abs_cast, abs_of_pos (unit_pos e)]
  rw [magnitude, ← target_eq_unitExponent (tells_exact m) mantissa (.inl positive),
    target_of_canonical canonical positive]

theorem eq_of_apply_eq {s t : Sign} {m n : ℕ} (positive : 0 < m) (same : s.apply (m : ℤ) = t.apply (n : ℤ)) :
    s = t ∧ m = n := by
  cases s <;> cases t <;> simp [Sign.apply] at same ⊢ <;> omega

/-- Two reals with one exact value are the same, or they are zeros. -/
theorem eq_or_zero_of_exactValue? (first : exactValue? x = some a) (second : exactValue? y = some a) :
    x = y ∨ a = 0 := by
  rcases exactValue?_cases first with ⟨_, _, zero⟩ | ⟨s, m, e, positive, unpackedX, canonicalX, valueX⟩
  · exact .inr zero
  rcases exactValue?_cases second with ⟨_, _, zero⟩ | ⟨t, n, f, positive', unpackedY, canonicalY, valueY⟩
  · exact .inr zero
  left
  have exponents := canonicalX.unitExponent positive s
  rw [← valueX, valueY, canonicalY.unitExponent positive' t] at exponents
  subst exponents
  have mantissas : ((s.apply m : ℤ) : ℚ) = (t.apply n : ℤ) :=
    mul_right_cancel₀ (unit_pos f).ne' (valueX.symm.trans valueY)
  obtain ⟨rfl, rfl⟩ := eq_of_apply_eq positive (Int.cast_inj.mp mantissas)
  exact eq_of_unpack unpackedX unpackedY

end Uniqueness

section Whole

variable {i j n : ℤ}

theorem nearestReal?_of_short (short : |n| ≤ 2 ^ 53) : nearestReal? n = some (n : ℚ) := by
  have small : |(n : ℚ)| ≤ 2 ^ (53 : ℤ) := by exact_mod_cast short
  rw [nearestReal?_of_abs_le small (by decide) (by decide), rounded_intCast short]

theorem toInt?_of_nearest (rounds : exactValue? x = nearestReal? n) (short : |n| ≤ 2 ^ 53) : toInt? x = some n := by
  rw [toInt?_eq_some_iff, rounds, nearestReal?_of_short short]

theorem toInt?_ofInt64 {w : Int64} (short : |w.toInt| ≤ 2 ^ 53) : toInt? (ofInt64 w) = some w.toInt :=
  toInt?_of_nearest (exactValue?_ofInt w.toInt) short

section Operands

variable (left : toInt? x = some i) (right : toInt? y = some j)
include left right

theorem toInt?_add (short : |i + j| ≤ 2 ^ 53) : toInt? (x + y) = some (i + j) := by
  rw [toInt?_eq_some_iff] at left right
  refine toInt?_of_nearest ?_ short
  rw [exactValue?_add left right, Int.cast_add]

theorem toInt?_sub (short : |i - j| ≤ 2 ^ 53) : toInt? (x - y) = some (i - j) := by
  rw [toInt?_eq_some_iff] at left right
  refine toInt?_of_nearest ?_ short
  rw [exactValue?_sub left right, Int.cast_sub]

theorem toInt?_mul (short : |i * j| ≤ 2 ^ 53) : toInt? (x * y) = some (i * j) := by
  rw [toInt?_eq_some_iff] at left right
  refine toInt?_of_nearest ?_ short
  rw [exactValue?_mul left right, Int.cast_mul]

theorem toInt?_div (nonzero : j ≠ 0) (divides : j ∣ i) (short : |i / j| ≤ 2 ^ 53) :
    toInt? (x / y) = some (i / j) := by
  rw [toInt?_eq_some_iff] at left right
  have divisor : (j : ℚ) ≠ 0 := by exact_mod_cast nonzero
  refine toInt?_of_nearest ?_ short
  rw [exactValue?_div left right divisor, Int.cast_div divides divisor]

end Operands

theorem toInt?_ofNat {n : ℕ} (short : n < 2 ^ 53) : toInt? (Float.ofNat n) = some (n : ℤ) := by
  have opened : Float.ofNat n = n.toUInt64.toFloat * 1 := by
    change Float.ofScientific n false 0 = _
    unfold Float.ofScientific
    rw [dif_pos ⟨short, by decide⟩]
    rfl
  have word : n.toUInt64.toNat = n := Nat.mod_eq_of_lt (by omega)
  have magnitude : |(n : ℤ)| ≤ 2 ^ 53 := by
    rw [Nat.abs_cast]
    omega
  have converted : toInt? n.toUInt64.toFloat = some (n : ℤ) := by
    have rounds : exactValue? n.toUInt64.toFloat = _ := exactValue?_normalize n.toUInt64.toNat 0 .positive
    rw [word, zpow_zero, mul_one] at rounds
    exact toInt?_of_nearest rounds magnitude
  rw [opened, toInt?_mul converted (by rfl : toInt? 1 = some 1) (by rwa [mul_one]), mul_one]

end Whole

end Calculator.Binary64
