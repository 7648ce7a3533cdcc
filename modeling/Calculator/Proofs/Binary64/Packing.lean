import Mathlib
import Calculator.Binary64.Basic

namespace Calculator.Binary64

open Float.Model (Format UnpackedFloat)
open Float.Model.UnpackedFloat (Sign packComponents unpackMantissa unpackExponent unpackSign)

/-- The mantissas and exponents of finite reals. Below 2 ^ 52 a mantissa has the least exponent. -/
structure Canonical (mantissa : Nat) (exponent : Int) : Prop where
  mantissa_lt : mantissa < 2 ^ 53
  exponent_ge : -1074 ≤ exponent
  exponent_le : exponent ≤ 971
  normal_or_least : 2 ^ 52 ≤ mantissa ∨ exponent = -1074

theorem toNat_implicitBit (fraction : BitVec 52) : (1#1 ++ fraction).toNat = 2 ^ 52 + fraction.toNat := by
  rw [BitVec.toNat_append, ← Nat.shiftLeft_add_eq_or_of_lt fraction.isLt]
  rfl

/-- The fields that a finite real is unpacked from: those of a number with the least exponent, or of one with its
leading digit left out. -/
theorem fields_of_unpack {bits : BitVec 64} {sign : Sign} {m : Nat} {e : Int} {positive : 0 < m}
    (unpacked : UnpackedFloat.unpack .binary64 bits = .finite sign m e positive) :
    sign = .ofBitVec (@unpackSign .binary64 bits) ∧
      ((@unpackExponent .binary64 bits).toNat = 0 ∧ m = (@unpackMantissa .binary64 bits).toNat ∧ e = -1074 ∨
        0 < (@unpackExponent .binary64 bits).toNat ∧ (@unpackExponent .binary64 bits).toNat < 2047 ∧
          m = 2 ^ 52 + (@unpackMantissa .binary64 bits).toNat ∧
          e = (@unpackExponent .binary64 bits).toNat - 1075) := by
  have biased : (@unpackExponent .binary64 bits).toNat < 2 ^ 11 := BitVec.isLt _
  unfold UnpackedFloat.unpack at unpacked
  dsimp only at unpacked
  split at unpacked
  · split at unpacked <;> cases unpacked
  · rename_i notFull
    have belowFull : (@unpackExponent .binary64 bits).toNat ≠ 2047 := fun full =>
      notFull (BitVec.eq_of_toNat_eq full)
    split at unpacked
    · rename_i subnormal
      split at unpacked
      · cases unpacked
      · cases unpacked
        refine ⟨rfl, .inl ⟨congrArg BitVec.toNat subnormal, rfl, ?_⟩⟩
        rw [subnormal]
        decide
    · rename_i notZero
      have aboveZero : (@unpackExponent .binary64 bits).toNat ≠ 0 := fun zero =>
        notZero (BitVec.eq_of_toNat_eq zero)
      cases unpacked
      have normal := toNat_implicitBit (@unpackMantissa .binary64 bits)
      exact ⟨rfl, .inr ⟨by omega, by omega, normal, rfl⟩⟩

theorem canonical_of_unpack {x : Float} {sign : Sign} {m : Nat} {e : Int} {positive : 0 < m}
    (unpacked : x.toModel.unpack = .finite sign m e positive) : Canonical m e := by
  have fraction : (@unpackMantissa .binary64 x.toModel.toBits.toBitVec).toNat < 2 ^ 52 := BitVec.isLt _
  obtain ⟨-, ⟨-, mantissa, least⟩ | ⟨above, below, mantissa, exponent⟩⟩ := fields_of_unpack unpacked
  · exact ⟨by omega, by omega, by omega, .inr least⟩
  · exact ⟨by omega, by omega, by omega, .inl (by omega)⟩

theorem unpack_packComponents {sign : Sign} {exponent : BitVec 11} (fraction : BitVec 52)
    (notZero : exponent ≠ 0#11) (notFull : exponent ≠ -1#11) :
    UnpackedFloat.unpack .binary64 (packComponents .binary64 sign exponent fraction) =
      .finite sign (1#1 ++ fraction).toNat (exponent.toNat - 1075) (by rw [toNat_implicitBit]; omega) := by
  simp only [UnpackedFloat.unpack, UnpackedFloat.unpackExponent_packComponents,
    UnpackedFloat.unpackMantissa_packComponents, UnpackedFloat.unpackSign_packComponents,
    Sign.ofBitVec_toBitVec]
  rw [if_neg notFull, if_neg notZero]
  rfl

theorem unpack_packComponents_subnormal {sign : Sign} {fraction : BitVec 52}
    (positive : 0 < fraction.toNat) :
    UnpackedFloat.unpack .binary64 (packComponents .binary64 sign 0#11 fraction) =
      .finite sign fraction.toNat (-1074) positive := by
  have notZero : fraction ≠ 0#52 := by
    rintro rfl
    cases positive
  simp only [UnpackedFloat.unpack, UnpackedFloat.unpackExponent_packComponents,
    UnpackedFloat.unpackMantissa_packComponents, UnpackedFloat.unpackSign_packComponents,
    Sign.ofBitVec_toBitVec]
  rw [if_neg (by decide), if_pos trivial, dif_neg notZero]
  rfl

structure Biased (e : Int) (exponent : BitVec 11) : Prop where
  toNat_eq : exponent.toNat = (e + 1023 + 52).toNat
  ne_zero : exponent ≠ 0#11
  ne_full : exponent ≠ -1#11

theorem biased_ofNat {e : Int} (lower : -1074 ≤ e) (upper : e ≤ 971) :
    Biased e (BitVec.ofNat 11 (e + 1023 + 52).toNat) := by
  have value : (BitVec.ofNat 11 (e + 1023 + 52).toNat).toNat = (e + 1023 + 52).toNat := by
    rw [BitVec.toNat_ofNat, Nat.mod_eq_of_lt (by omega)]
  have zero : (0#11).toNat = 0 := by decide
  have full : (-1#11).toNat = 2047 := by decide
  refine ⟨value, fun same => ?_, fun same => ?_⟩
  · rw [same] at value
    omega
  · rw [same] at value
    omega

theorem pack_finite {sign : Sign} {m : Nat} {e : Int} {positive : 0 < m} :
    UnpackedFloat.pack .binary64 (.finite sign m e positive) =
      if 2 ^ 11 ≤ (e + 1023 + 52).toNat + 1 then UnpackedFloat.packedInfinity .binary64 sign
      else if m.log2 + 1 = 53 then
        packComponents .binary64 sign (BitVec.ofNat 11 (e + 1023 + 52).toNat) (BitVec.ofNat 52 m)
      else packComponents .binary64 sign 0#11 (BitVec.ofNat 52 m) := rfl

theorem unpack_pack {sign : Sign} {m : Nat} {e : Int} (positive : 0 < m) (canonical : Canonical m e) :
    (Float.Model.pack (.finite sign m e positive)).unpack = .finite sign m e positive := by
  obtain ⟨small, lower, upper, shape⟩ := canonical
  have inRange : ¬ 2 ^ 11 ≤ (e + 1023 + 52).toNat + 1 := by omega
  change UnpackedFloat.unpack .binary64 (UnpackedFloat.pack .binary64 (.finite sign m e positive)) = _
  rw [pack_finite, if_neg inRange]
  by_cases normal : 2 ^ 52 ≤ m
  · have digits : m.log2 = 52 := (Nat.log2_eq_iff (Nat.ne_of_gt positive)).mpr ⟨normal, small⟩
    obtain ⟨value, notZero, notFull⟩ := biased_ofNat lower upper
    have mantissa : (1#1 ++ BitVec.ofNat 52 m).toNat = m := by
      rw [toNat_implicitBit, BitVec.toNat_ofNat]
      omega
    rw [if_pos (by omega), unpack_packComponents _ notZero notFull]
    simp only [mantissa, UnpackedFloat.finite.injEq, true_and]
    omega
  · have least : e = -1074 := shape.resolve_left normal
    have digits : m.log2 < 52 := (Nat.log2_lt (Nat.ne_of_gt positive)).mpr (by omega)
    have mantissa : (BitVec.ofNat 52 m).toNat = m := by
      rw [BitVec.toNat_ofNat, Nat.mod_eq_of_lt (by omega)]
    subst e
    rw [if_neg (by omega), unpack_packComponents_subnormal (mantissa.symm ▸ positive)]
    simp only [mantissa]

theorem isFinite_packComponents {sign : Sign} {exponent : BitVec 11} {fraction : BitVec 52}
    (notFull : exponent ≠ -1#11) :
    (UnpackedFloat.unpack .binary64 (packComponents .binary64 sign exponent fraction)).isFinite = true := by
  simp only [UnpackedFloat.unpack, UnpackedFloat.unpackExponent_packComponents]
  rw [if_neg notFull]
  split
  · split <;> rfl
  · rfl

theorem isFinite_pack {sign : Sign} {m : Nat} {e : Int} {positive : 0 < m} (lower : -1074 ≤ e)
    (upper : e ≤ 971) : (Float.ofModel (.pack (.finite sign m e positive))).isFinite = true := by
  have inRange : ¬ 2 ^ 11 ≤ (e + 1023 + 52).toNat + 1 := by omega
  change (UnpackedFloat.unpack .binary64 (UnpackedFloat.pack .binary64 _)).isFinite = true
  rw [pack_finite, if_neg inRange]
  split
  · exact isFinite_packComponents (biased_ofNat lower upper).ne_full
  · exact isFinite_packComponents (by decide)

theorem isFinite_zero (sign : Sign) : (Float.ofModel (.pack (.zero sign))).isFinite = true := by
  cases sign <;> rfl

theorem isFinite_cases {x : Float} (finite : x.isFinite = true) :
    (∃ sign, x.toModel.unpack = .zero sign) ∨
      ∃ sign m e, ∃ positive : 0 < m, x.toModel.unpack = .finite sign m e positive ∧ Canonical m e := by
  change x.toModel.unpack.isFinite = true at finite
  cases unpacked : x.toModel.unpack with
  | infinity sign =>
    rw [unpacked] at finite
    cases finite
  | notANumber =>
    rw [unpacked] at finite
    cases finite
  | zero sign => exact .inl ⟨sign, rfl⟩
  | finite sign m e positive => exact .inr ⟨sign, m, e, positive, rfl, canonical_of_unpack unpacked⟩

theorem isFinite_neg {x : Float} (finite : x.isFinite = true) : (-x).isFinite = true := by
  change (Float.ofModel (.pack x.toModel.unpack.neg)).isFinite = true
  rcases isFinite_cases finite with ⟨sign, unpacked⟩ | ⟨sign, m, e, positive, unpacked, canonical⟩
  · rw [unpacked]
    exact isFinite_zero _
  · rw [unpacked]
    exact isFinite_pack canonical.exponent_ge canonical.exponent_le

end Calculator.Binary64
