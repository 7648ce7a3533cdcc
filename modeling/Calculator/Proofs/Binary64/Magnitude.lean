import Calculator.Binary64.Division
import Calculator.Binary64.Rounding
import Calculator.Proofs.Binary64.Packing

namespace Calculator.Binary64

open Float.Model (Format UnpackedFloat totalExponent)
open Float.Model.UnpackedFloat (Sign Accuracy ExtendedMantissa roundWithAccuracy)

theorem shiftRight_mantissa (em : ExtendedMantissa) (k : Nat) :
    (em >>> k).mantissa = em.mantissa / 2 ^ k := by
  induction k with
  | zero => exact (Nat.div_one _).symm
  | succ k ih =>
    change (em >>> k).mantissa / 2 = _
    rw [ih, Nat.div_div_eq_div_mul, ← Nat.pow_succ]

theorem ofMantissaAndAccuracy_mantissa (m : Nat) (accuracy : Accuracy) :
    (ExtendedMantissa.ofMantissaAndAccuracy m accuracy).mantissa = m := by
  cases accuracy with
  | exact => rfl
  | inexact order => cases order <;> rfl

theorem roundedMantissa_le (em : ExtendedMantissa) : em.roundedMantissa ≤ em.mantissa + 1 := by
  unfold ExtendedMantissa.roundedMantissa
  cases em.accuracy with
  | exact => exact Nat.le_succ _
  | inexact order =>
    cases order with
    | lt => exact Nat.le_succ _
    | eq =>
      change em.mantissa + em.mantissa % 2 ≤ _
      omega
    | gt => exact Nat.le_refl _

theorem log2_le_of_lt {n k : Nat} (below : n < 2 ^ (k + 1)) : n.log2 ≤ k := by
  by_cases zero : n = 0
  · simp [zero]
  · exact Nat.lt_succ_iff.mp ((Nat.log2_lt zero).mpr below)

theorem log2_shiftLeft_le (m k : Nat) : (m <<< k).log2 ≤ m.log2 + k := by
  apply log2_le_of_lt
  rw [Nat.shiftLeft_eq, show m.log2 + k + 1 = m.log2 + 1 + k by omega, Nat.pow_add]
  exact Nat.mul_lt_mul_of_pos_right Nat.lt_log2_self (Nat.two_pow_pos k)

theorem log2_carry_le {m k r : Nat} (rounded : r ≤ m / 2 ^ k + 1) : r.log2 + k ≤ max m.log2 k + 1 := by
  have unit : 0 < 2 ^ k := Nat.two_pow_pos k
  have digits : m < 2 ^ (max m.log2 k + 1) :=
    Nat.lt_of_lt_of_le Nat.lt_log2_self (Nat.pow_le_pow_right (by decide) (by omega))
  obtain ⟨j, count⟩ := Nat.exists_eq_add_of_le (Nat.le_max_right m.log2 k)
  rw [count, show k + j + 1 = j + 1 + k by omega, Nat.pow_add] at digits
  have quotient : m / 2 ^ k < 2 ^ (j + 1) := Nat.div_lt_of_lt_mul (by rwa [Nat.mul_comm])
  -- rounding up may carry into one more digit
  have carried : r < 2 ^ (j + 1 + 1) := by
    rw [Nat.pow_succ]
    have := Nat.two_pow_pos (j + 1)
    omega
  have bound := log2_le_of_lt carried
  omega

theorem targetExponent_eq (m : Nat) (e : Int) :
    Format.binary64.targetExponent (totalExponent m e) = max (m.log2 + 1 + e - 53) (-1074) := rfl

theorem isFinite_roundWithAccuracy {sign : Sign} {m : Nat} {e : Int} {accuracy : Accuracy}
    (exponent : e ≤ 971) (magnitude : m.log2 + e ≤ 1022) :
    (Float.ofModel (.pack (roundWithAccuracy .binary64 sign m e accuracy))).isFinite = true := by
  unfold roundWithAccuracy UnpackedFloat.shiftToTargetExponent UnpackedFloat.shiftToExponent
  dsimp only
  rw [targetExponent_eq]
  generalize shift : (max ((m.log2 : Int) + 1 + e - 53) (-1074) - e).toNat = k
  generalize shifted : ExtendedMantissa.ofMantissaAndAccuracy m accuracy >>> k = em
  have carry : em.roundedMantissa.log2 + k ≤ max m.log2 k + 1 := by
    have kept := shiftRight_mantissa (ExtendedMantissa.ofMantissaAndAccuracy m accuracy) k
    rw [shifted, ofMantissaAndAccuracy_mantissa] at kept
    have rounded := roundedMantissa_le em
    rw [kept] at rounded
    exact log2_carry_le rounded
  rw [targetExponent_eq]
  split
  · exact isFinite_zero sign
  · refine isFinite_pack ?_ ?_ <;> omega

structure Within (bound : Int) (x : Float) : Prop where
  isFinite : x.isFinite = true
  magnitude : ∀ sign m e positive, x.toModel.unpack = .finite sign m e positive → m.log2 + e ≤ bound

theorem Canonical.log2_le {m : Nat} {e : Int} (canonical : Canonical m e) : m.log2 ≤ 52 :=
  log2_le_of_lt canonical.mantissa_lt

theorem Canonical.exponent_le_magnitude {m : Nat} {e bound : Int} (canonical : Canonical m e)
    (magnitude : m.log2 + e ≤ bound) : e ≤ max (bound - 52) (-1074) := by
  rcases canonical.normal_or_least with large | least
  · have digits : 52 ≤ m.log2 := (Nat.le_log2 (by omega)).mpr large
    omega
  · omega

theorem within_of_isFinite {x : Float} (finite : x.isFinite = true) : Within 1023 x where
  isFinite := finite
  magnitude := by
    intro sign m e positive unpacked
    have canonical := canonical_of_unpack unpacked
    have digits := canonical.log2_le
    have upper := canonical.exponent_le
    omega

theorem within_of_unpack {x : Float} {sign : Sign} {m : Nat} {e bound : Int} {positive : 0 < m}
    (unpacked : x.toModel.unpack = .finite sign m e positive) (magnitude : m.log2 + e ≤ bound) :
    Within bound x where
  isFinite := by
    change x.toModel.unpack.isFinite = true
    rw [unpacked]
    rfl
  magnitude := by
    intro sign m e positive again
    rw [unpacked] at again
    cases again
    exact magnitude

theorem log2_mul_le (m n : Nat) : (m * n).log2 ≤ m.log2 + n.log2 + 1 := by
  apply log2_le_of_lt
  calc m * n < 2 ^ (m.log2 + 1) * 2 ^ (n.log2 + 1) := Nat.mul_lt_mul'' Nat.lt_log2_self Nat.lt_log2_self
    _ = 2 ^ (m.log2 + n.log2 + 1 + 1) := by rw [← Nat.pow_add]; congr 1; omega

theorem isFinite_mul {x y : Float} {a b : Int} (left : Within a x) (right : Within b y)
    (small : a + b ≤ 1021) : (x * y).isFinite = true := by
  change (Float.ofModel (.pack (UnpackedFloat.mul .binary64 x.toModel.unpack y.toModel.unpack))).isFinite = _
  rcases isFinite_cases left.isFinite with ⟨sign, unpackedX⟩ | ⟨sign, m, e, positive, unpackedX, canonicalX⟩
  · rcases isFinite_cases right.isFinite with ⟨_, unpackedY⟩ | ⟨_, _, _, _, unpackedY, _⟩
    all_goals
      rw [unpackedX, unpackedY]
      exact isFinite_zero _
  · rcases isFinite_cases right.isFinite with ⟨_, unpackedY⟩ | ⟨_, n, f, _, unpackedY, canonicalY⟩
    · rw [unpackedX, unpackedY]
      exact isFinite_zero _
    · have magnitudeX := left.magnitude _ _ _ _ unpackedX
      have magnitudeY := right.magnitude _ _ _ _ unpackedY
      have lowX := canonicalX.exponent_le_magnitude magnitudeX
      have lowY := canonicalY.exponent_le_magnitude magnitudeY
      have upperX := canonicalX.exponent_le
      have upperY := canonicalY.exponent_le
      have digits := log2_mul_le m n
      rw [unpackedX, unpackedY]
      exact isFinite_roundWithAccuracy (by omega) (by omega)

theorem log2_div_le {n : Nat} (m : Nat) (nonzero : 0 < n) : (m / n).log2 + n.log2 ≤ max m.log2 n.log2 := by
  by_cases below : m < n
  · rw [Nat.div_eq_of_lt below, Nat.log2_zero]
    omega
  · have quotient : 0 < m / n := Nat.div_pos (Nat.not_lt.mp below) nonzero
    have powers : 2 ^ ((m / n).log2 + n.log2) ≤ m := by
      rw [Nat.pow_add]
      calc 2 ^ (m / n).log2 * 2 ^ n.log2
          ≤ m / n * n := Nat.mul_le_mul (Nat.log2_self_le quotient.ne') (Nat.log2_self_le nonzero.ne')
        _ ≤ m := Nat.div_mul_le_self m n
    have := (Nat.le_log2 (by omega)).mpr powers
    omega

theorem isFinite_div {x y : Float} {a f : Int} {sign : Sign} {n : Nat} {positive : 0 < n}
    (left : Within a x) (right : y.toModel.unpack = .finite sign n f positive)
    (small : a - (n.log2 + f) ≤ 1022) : (x / y).isFinite = true := by
  change (Float.ofModel (.pack (UnpackedFloat.div .binary64 x.toModel.unpack y.toModel.unpack))).isFinite = _
  rcases isFinite_cases left.isFinite with ⟨_, unpackedX⟩ | ⟨_, m, e, _, unpackedX, _⟩
  · rw [unpackedX, right]
    exact isFinite_zero _
  · have magnitude := left.magnitude _ _ _ _ unpackedX
    rw [unpackedX, right]
    have total : Format.binary64.targetExponent (totalExponent m e - totalExponent n f) =
        max (m.log2 + 1 + e - (n.log2 + 1 + f) - 53) (-1074) := rfl
    unfold UnpackedFloat.div UnpackedFloat.divCore
    dsimp only
    rw [total]
    generalize target : min (e - f) (max ((m.log2 : Int) + 1 + e - (n.log2 + 1 + f) - 53) (-1074)) = t
    refine isFinite_roundWithAccuracy (by omega) ?_
    generalize shift : (e - f - t).toNat = k
    have shifted := log2_shiftLeft_le m k
    have quotient := log2_div_le (m <<< k) positive
    omega

theorem isFinite_nearest {sign : Sign} {m : Nat} {e : Int} (magnitude : m.log2 + e ≤ 1022) :
    (nearest sign m e).isFinite = true := by
  unfold nearest UnpackedFloat.round UnpackedFloat.decreaseExponent
  dsimp only
  rw [targetExponent_eq]
  generalize shift : (e - max ((m.log2 : Int) + 1 + e - 53) (-1074)).toNat = k
  refine isFinite_roundWithAccuracy (by omega) ?_
  have shifted := log2_shiftLeft_le m k
  omega

theorem lt_iff {x y : Float} : x < y ↔ x.toModel.unpack.lt y.toModel.unpack = true := decide_eq_true_iff

theorem le_iff {x y : Float} : x ≤ y ↔ x.toModel.unpack.le y.toModel.unpack = true := decide_eq_true_iff

theorem unpack_ofNat_zero : (0 : Float).toModel.unpack = .zero .positive := by rfl

theorem unpack_abs {x : Float} {sign : Sign} {m : Nat} {e : Int} {positive : 0 < m}
    (unpacked : x.toModel.unpack = .finite sign m e positive) :
    (abs x).toModel.unpack = .finite .positive m e positive := by
  have negative : x < 0 ↔ sign = .negative := by
    rw [lt_iff, unpacked, unpack_ofNat_zero]
    cases sign with
    | positive => exact ⟨nofun, nofun⟩
    | negative => exact ⟨fun _ => rfl, fun _ => rfl⟩
  unfold abs
  cases sign with
  | positive =>
    rw [if_neg fun below => nomatch negative.mp below]
    exact unpacked
  | negative =>
    rw [if_pos (negative.mpr rfl)]
    change (Float.Model.pack x.toModel.unpack.neg).unpack = _
    rw [unpacked]
    exact unpack_pack positive (canonical_of_unpack unpacked)

theorem within_of_lt_roundingLimit {x : Float} (finite : x.isFinite = true)
    (below : ¬ abs x ≥ roundingLimit) : Within 49 x where
  isFinite := finite
  magnitude := by
    intro sign m e positive unpacked
    have limit : roundingLimit.toModel.unpack = .finite .positive 8000000000000000 (-3) (by decide) := by rfl
    have exponent : e ≤ -3 := by
      by_contra large
      apply below
      rw [ge_iff_le, le_iff, limit, unpack_abs unpacked]
      have order : compare (-3) e = .lt := compare_lt_iff_lt.mpr (by omega)
      simp [UnpackedFloat.le, UnpackedFloat.compare, order]
    have digits := (canonical_of_unpack unpacked).log2_le
    omega

theorem isFinite_round {x : Float} (finite : x.isFinite = true) : (round x).isFinite = true := by
  unfold round mapMagnitude
  split
  · rename_i sign m k positive unpacked
    have unit : 2 ≤ Nat.pow 2 (k + 1) := Nat.le_self_pow (by omega) 2
    generalize Nat.pow 2 (k + 1) = u at unit
    -- a real with binary places is at least halved when they are dropped, and half a unit is added
    have quotient : (m + u / 2) / u ≤ m := by
      apply Nat.div_le_of_le_mul
      have halves : u * m = m + (u - 1) * m := by
        rw [Nat.sub_mul]
        have := Nat.le_mul_of_pos_left m (show 0 < u by omega)
        omega
      have := Nat.le_mul_of_pos_right (u - 1) positive
      omega
    have mantissa := (canonical_of_unpack unpacked).mantissa_lt
    have digits : ((m + u / 2) / u).log2 ≤ 52 := log2_le_of_lt (by omega)
    apply isFinite_nearest
    dsimp only
    omega
  · exact finite

theorem isFinite_roundShown {x : Float} (finite : x.isFinite = true) : (roundShown x).isFinite = true := by
  unfold roundShown roundTo
  split
  · exact finite
  · rename_i below
    have scale : (intPow 10 shownPlaces).toModel.unpack =
        .finite .positive 5242880000000000 (-19) (by decide) := by
      rw [show intPow 10 shownPlaces = Float.ofBits 0x4202a05f20000000 by decide +kernel]
      rfl
    have product : (x * intPow 10 shownPlaces).isFinite = true :=
      isFinite_mul (within_of_lt_roundingLimit finite below)
        (within_of_unpack scale (show _ ≤ (33 : Int) by decide)) (by decide)
    exact isFinite_div (within_of_isFinite (isFinite_round product)) scale (by decide)

end Calculator.Binary64
