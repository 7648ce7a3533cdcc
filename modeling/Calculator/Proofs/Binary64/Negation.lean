import Calculator.Binary64.Rounding
import Calculator.Proofs.Binary64.Squaring

namespace Calculator.Binary64

open Float.Model (Format UnpackedFloat)
open Float.Model.UnpackedFloat (Sign Accuracy packComponents unpackMantissa unpackExponent unpackSign
  roundWithAccuracy)

variable {x y : Float} {m : ℕ} {e : ℤ}

section Bits

theorem pack_unpack_of_valid {bits : BitVec 64} (valid : Format.binary64.Valid bits) :
    UnpackedFloat.pack .binary64 (.unpack .binary64 bits) = bits := by
  have fields := packComponents_unpack bits
  by_cases full : @unpackExponent .binary64 bits = -1#11
  · have opened : UnpackedFloat.unpack .binary64 bits = if @unpackMantissa .binary64 bits = 0#52 then
        .infinity (.ofBitVec (@unpackSign .binary64 bits)) else .notANumber := by
      unfold UnpackedFloat.unpack
      dsimp only
      rw [if_pos full]
    rw [opened]
    split
    · rename_i whole
      rw [full, whole] at fields
      exact fields
    · rename_i rest
      exact (valid.eq_packedNaN full rest).symm
  · by_cases zero : @unpackExponent .binary64 bits = 0#11 ∧ @unpackMantissa .binary64 bits = 0#52
    · have opened : UnpackedFloat.unpack .binary64 bits = .zero (.ofBitVec (@unpackSign .binary64 bits)) := by
        unfold UnpackedFloat.unpack
        dsimp only
        rw [if_neg full, if_pos zero.1, dif_pos zero.2]
      rw [opened]
      rw [zero.1, zero.2] at fields
      exact fields
    · obtain ⟨sign, m, e, positive, unpacked⟩ : ∃ sign m e, ∃ positive : 0 < m,
          UnpackedFloat.unpack .binary64 bits = .finite sign m e positive := by
        unfold UnpackedFloat.unpack
        dsimp only
        rw [if_neg full]
        split
        · rename_i least
          rw [dif_neg fun nothing => zero ⟨least, nothing⟩]
          exact ⟨_, _, _, Nat.pos_of_ne_zero fun none => zero ⟨least, BitVec.eq_of_toNat_eq none⟩, rfl⟩
        · exact ⟨_, _, _, by rw [toNat_implicitBit]; omega, rfl⟩
      rw [unpacked, pack_unpack unpacked]

theorem ofModel_pack_unpack (x : Float) : .ofModel (.pack x.toModel.unpack) = x := by
  obtain ⟨⟨⟨bits⟩, valid⟩⟩ := x
  have same := pack_unpack_of_valid valid
  unfold Float.Model.pack Float.Model.unpack
  simp only [same]

end Bits

section Negative

theorem negative_negative (sign : Sign) : - -sign = sign := by cases sign <;> rfl

theorem neg_neg_unpacked (u : UnpackedFloat) : u.neg.neg = u := by
  cases u <;> simp only [UnpackedFloat.neg, negative_negative]

theorem unpack_packComponents_neg (sign : Sign) (exponent : BitVec 11) (fraction : BitVec 52) :
    UnpackedFloat.unpack .binary64 (packComponents .binary64 (-sign) exponent fraction) =
      (UnpackedFloat.unpack .binary64 (packComponents .binary64 sign exponent fraction)).neg := by
  simp only [UnpackedFloat.unpack, UnpackedFloat.unpackExponent_packComponents,
    UnpackedFloat.unpackMantissa_packComponents, UnpackedFloat.unpackSign_packComponents, Sign.ofBitVec_toBitVec]
  split_ifs <;> rfl

theorem unpack_pack_neg (u : UnpackedFloat) :
    (Float.Model.pack u.neg).unpack = (Float.Model.pack u).unpack.neg := by
  change UnpackedFloat.unpack .binary64 (UnpackedFloat.pack .binary64 u.neg) =
    (UnpackedFloat.unpack .binary64 (UnpackedFloat.pack .binary64 u)).neg
  cases u with
  | notANumber => rfl
  | infinity sign => exact unpack_packComponents_neg sign _ _
  | zero sign => exact unpack_packComponents_neg sign _ _
  | finite sign m e positive =>
    change UnpackedFloat.unpack .binary64 (UnpackedFloat.pack .binary64 (.finite (-sign) m e positive)) = _
    rw [pack_finite, pack_finite]
    split_ifs <;> exact unpack_packComponents_neg sign _ _

theorem unpack_neg (x : Float) : (-x).toModel.unpack = x.toModel.unpack.neg := by
  change (Float.Model.pack x.toModel.unpack.neg).unpack = _
  rw [unpack_pack_neg]
  exact congrArg (fun x : Float => x.toModel.unpack.neg) (ofModel_pack_unpack x)

theorem ofModel_pack_neg (u : UnpackedFloat) : Float.ofModel (.pack u.neg) = -.ofModel (.pack u) := by
  rw [← ofModel_pack_unpack (.ofModel (.pack u.neg))]
  exact congrArg (fun u => Float.ofModel (.pack u)) (unpack_pack_neg u)

theorem negate_negate (x : Float) : - -x = x := by
  rw [← ofModel_pack_unpack (- -x), unpack_neg, unpack_neg, neg_neg_unpacked, ofModel_pack_unpack]

end Negative

section Operations

theorem roundWithAccuracy_neg (sign : Sign) (m : ℕ) (e : ℤ) (accuracy : Accuracy) :
    roundWithAccuracy .binary64 (-sign) m e accuracy = (roundWithAccuracy .binary64 sign m e accuracy).neg := by
  unfold roundWithAccuracy
  simp only
  split <;> rfl

theorem neg_mul_sign (s t : Sign) : -s * t = -(s * t) := by cases s <;> cases t <;> rfl

theorem mul_neg_sign (s t : Sign) : s * -t = -(s * t) := by cases s <;> cases t <;> rfl

theorem div_neg_sign (s t : Sign) : s / -t = -(s / t) := by cases s <;> cases t <;> rfl

theorem mul_unpacked_neg (u w : UnpackedFloat) :
    UnpackedFloat.mul .binary64 u.neg w = (UnpackedFloat.mul .binary64 u w).neg := by
  cases u <;> cases w <;>
    simp only [UnpackedFloat.mul, UnpackedFloat.neg, neg_mul_sign, roundWithAccuracy_neg]

theorem mul_neg_unpacked (u w : UnpackedFloat) :
    UnpackedFloat.mul .binary64 u w.neg = (UnpackedFloat.mul .binary64 u w).neg := by
  cases u <;> cases w <;>
    simp only [UnpackedFloat.mul, UnpackedFloat.neg, mul_neg_sign, roundWithAccuracy_neg]

theorem div_unpacked_neg (u w : UnpackedFloat) :
    UnpackedFloat.div .binary64 u w.neg = (UnpackedFloat.div .binary64 u w).neg := by
  cases u <;> cases w <;>
    simp only [UnpackedFloat.div, UnpackedFloat.neg, div_neg_sign, roundWithAccuracy_neg]

theorem negate_mul (x y : Float) : -x * y = -(x * y) := by
  change Float.ofModel (.pack (UnpackedFloat.mul .binary64 (-x).toModel.unpack y.toModel.unpack)) = _
  rw [unpack_neg, mul_unpacked_neg, ofModel_pack_neg]
  rfl

theorem mul_negate (x y : Float) : x * -y = -(x * y) := by
  change Float.ofModel (.pack (UnpackedFloat.mul .binary64 x.toModel.unpack (-y).toModel.unpack)) = _
  rw [unpack_neg, mul_neg_unpacked, ofModel_pack_neg]
  rfl

theorem div_negate (x y : Float) : x / -y = -(x / y) := by
  change Float.ofModel (.pack (UnpackedFloat.div .binary64 x.toModel.unpack (-y).toModel.unpack)) = _
  rw [unpack_neg, div_unpacked_neg, ofModel_pack_neg]
  rfl

end Operations

section Differences

theorem normalize_neg {n : ℤ} (nonzero : n ≠ 0) (e : ℤ) (zero : Sign) :
    UnpackedFloat.normalize .binary64 (-n) e zero = (UnpackedFloat.normalize .binary64 n e zero).neg := by
  unfold UnpackedFloat.normalize
  rcases lt_or_gt_of_ne nonzero with below | above
  · rw [Int.compare_eq_lt.mpr below, Int.compare_eq_gt.mpr (neg_pos.mpr below)]
    exact roundWithAccuracy_neg .negative _ _ _
  · rw [Int.compare_eq_gt.mpr above, Int.compare_eq_lt.mpr (neg_lt_zero.mpr above), neg_neg]
    exact roundWithAccuracy_neg .positive _ _ _

theorem sub_unpacked_neg (u w : UnpackedFloat) :
    UnpackedFloat.sub .binary64 u.neg w.neg = (UnpackedFloat.sub .binary64 u w).neg ∨
      ∃ s t, UnpackedFloat.sub .binary64 u.neg w.neg = .zero s ∧ UnpackedFloat.sub .binary64 u w = .zero t := by
  cases u with
  | notANumber => exact .inl rfl
  | infinity s =>
    cases w with
    | infinity t => cases s <;> cases t <;> exact .inl rfl
    | _ => exact .inl rfl
  | zero s =>
    cases w with
    | zero t => cases s <;> cases t <;> exact .inr ⟨_, _, rfl, rfl⟩
    | _ => exact .inl rfl
  | finite s m e positive =>
    cases w with
    | finite t n f positive' =>
      simp only [UnpackedFloat.sub, UnpackedFloat.neg, apply_neg, neg_sub_neg, ← neg_sub (s.apply _)]
      generalize s.apply _ - t.apply _ = difference
      by_cases equal : difference = 0
      · rw [equal]
        exact .inr ⟨_, _, rfl, rfl⟩
      · exact .inl (normalize_neg equal _ _)
    | _ => exact .inl rfl

theorem negate_sub_negate (x y : Float) :
    -x - -y = -(x - y) ∨ exactValue? (-x - -y) = some 0 ∧ exactValue? (x - y) = some 0 := by
  have opened : -x - -y = .ofModel (.pack (.sub .binary64 x.toModel.unpack.neg y.toModel.unpack.neg)) := by
    rw [← unpack_neg, ← unpack_neg]
    rfl
  have other : x - y = .ofModel (.pack (.sub .binary64 x.toModel.unpack y.toModel.unpack)) := rfl
  rw [opened, other]
  rcases sub_unpacked_neg x.toModel.unpack y.toModel.unpack with same | ⟨s, t, first, second⟩
  · rw [same, ofModel_pack_neg]
    exact .inl rfl
  · rw [first, second]
    exact .inr ⟨exactValue?_zero s, exactValue?_zero t⟩

end Differences

section Rounding

theorem nearest_neg (sign : Sign) (m : ℕ) (e : ℤ) : nearest (-sign) m e = -nearest sign m e := by
  unfold nearest
  rw [← ofModel_pack_neg]
  exact congrArg (fun u => Float.ofModel (.pack u)) (roundWithAccuracy_neg sign _ _ _)

theorem mapMagnitude_negate (f : ℕ → ℕ → ℕ) (x : Float) : mapMagnitude f (-x) = -mapMagnitude f x := by
  unfold mapMagnitude
  rw [unpack_neg]
  cases x.toModel.unpack with
  | finite sign m e positive =>
    cases e with
    | ofNat k => rfl
    | negSucc k => exact nearest_neg sign _ 0
  | _ => rfl

theorem round_negate (x : Float) : round (-x) = -round x := mapMagnitude_negate _ x

end Rounding

section Magnitudes

theorem isFinite_negate (x : Float) : (-x).isFinite = x.isFinite := by
  change (-x).toModel.unpack.isFinite = x.toModel.unpack.isFinite
  rw [unpack_neg]
  cases x.toModel.unpack <;> rfl

theorem negate_beq_zero (x : Float) : (-x == 0) = (x == 0) := by
  change ((-x).toModel.unpack.compare (0 : Float).toModel.unpack == some .eq) =
    (x.toModel.unpack.compare (0 : Float).toModel.unpack == some .eq)
  rw [unpack_neg, unpack_ofNat_zero]
  rcases x.toModel.unpack with (_ | _) | _ | _ | ⟨_ | _, _, _, _⟩ <;> rfl

theorem negate_lt_zero_iff (x : Float) : -x < 0 ↔ 0 < x := by
  rw [lt_iff, lt_iff, unpack_neg, unpack_ofNat_zero]
  rcases x.toModel.unpack with (_ | _) | _ | _ | ⟨_ | _, _, _, _⟩ <;> exact Iff.rfl

theorem not_zero_lt_of_lt_zero (below : x < 0) : ¬ 0 < x := by
  intro above
  rw [lt_iff, unpack_ofNat_zero] at below above
  generalize x.toModel.unpack = u at below above
  rcases u with (_ | _) | _ | _ | ⟨_ | _, _, _, _⟩ <;>
    simp [UnpackedFloat.lt, UnpackedFloat.compare] at below above

theorem negate_eq_or_zero (notBelow : ¬ x < 0) (notAbove : ¬ 0 < x) : -x = x ∨ exactValue? x = some 0 := by
  rw [lt_iff, unpack_ofNat_zero] at notBelow notAbove
  cases unpacked : x.toModel.unpack with
  | zero sign => exact .inr (by rw [exactValue?, unpacked])
  | notANumber =>
    left
    rw [← ofModel_pack_unpack (-x), unpack_neg, unpacked, ← ofModel_pack_unpack x, unpacked]
    rfl
  | infinity sign | finite sign m e positive =>
    rw [unpacked] at notBelow notAbove
    cases sign with
    | positive => exact absurd rfl notAbove
    | negative => exact absurd rfl notBelow

theorem abs_negate (x : Float) : abs (-x) = abs x ∨ exactValue? x = some 0 := by
  unfold abs
  by_cases below : x < 0
  · rw [if_pos below, if_neg ((negate_lt_zero_iff x).not.mpr (not_zero_lt_of_lt_zero below))]
    exact .inl rfl
  · by_cases above : 0 < x
    · rw [if_neg below, if_pos ((negate_lt_zero_iff x).mpr above), negate_negate]
      exact .inl rfl
    · rw [if_neg below, if_neg ((negate_lt_zero_iff x).not.mpr above)]
      exact negate_eq_or_zero below above

theorem eq_zero_or_negative_zero (zero : exactValue? x = some 0) : x = 0 ∨ x = -0 := by
  rcases exactValue?_cases zero with ⟨sign, unpacked, -⟩ | ⟨sign, m, e, positive, -, -, value⟩
  · rw [← ofModel_pack_unpack x, unpacked]
    cases sign with
    | positive => exact .inl rfl
    | negative => exact .inr rfl
  · have magnitude := abs_signed sign m e
    rw [← value, abs_zero] at magnitude
    exact absurd magnitude (magnitude_pos positive e).ne

end Magnitudes

section Powers

theorem mulPow_negate (r f : Float) (n : ℕ) : mulPow (-r) f n = -mulPow r f n := by
  induction n using Nat.strongRecOn generalizing r f with
  | ind n ih =>
    by_cases finished : n = 0
    · rw [finished, mulPow_zero, mulPow_zero]
    · have signed : (if n % 2 = 1 then -r * f else -r) = -(if n % 2 = 1 then r * f else r) := by
        rw [negate_mul]
        exact (apply_ite Neg.neg _ _ _).symm
      rw [mulPow_step (Nat.pos_of_ne_zero finished), mulPow_step (Nat.pos_of_ne_zero finished), signed]
      exact ih (n / 2) (by omega) _ _

/-- The square of the base has no sign, so only the first step can pass one on. -/
theorem natPow_negate (x : Float) (n : ℕ) : natPow (-x) n = if Even n then natPow x n else -natPow x n := by
  unfold natPow
  by_cases finished : n = 0
  · rw [finished, mulPow_zero, mulPow_zero, if_pos (by decide)]
  rw [mulPow_step (Nat.pos_of_ne_zero finished), mulPow_step (Nat.pos_of_ne_zero finished), negate_mul, mul_negate,
    mul_negate, negate_negate]
  rcases Nat.even_or_odd n with even | odd
  · rw [if_pos even, if_neg (by grind), if_neg (by grind)]
  · rw [if_neg (Nat.not_even_iff_odd.mpr odd), if_pos (Nat.odd_iff.mp odd), if_pos (Nat.odd_iff.mp odd), mulPow_negate]

end Powers

end Calculator.Binary64
