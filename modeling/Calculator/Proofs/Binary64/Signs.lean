import Calculator.Proofs.Binary64.Numbers

namespace Calculator.Binary64

open Float.Model (UnpackedFloat)
open Float.Model.UnpackedFloat (Sign Accuracy packComponents roundWithAccuracy)

variable {x y : Float} {s t : Sign} {b : ℚ}

section Unpacked

def signOf? : UnpackedFloat → Option Sign
  | .notANumber => none
  | .infinity sign | .zero sign | .finite sign .. => some sign

theorem signOf?_packComponents {exponent : BitVec 11} (fraction : BitVec 52) (notFull : exponent ≠ -1#11) :
    signOf? (.unpack .binary64 (packComponents .binary64 s exponent fraction)) = some s := by
  simp only [UnpackedFloat.unpack, UnpackedFloat.unpackExponent_packComponents,
    UnpackedFloat.unpackMantissa_packComponents, UnpackedFloat.unpackSign_packComponents, Sign.ofBitVec_toBitVec]
  rw [if_neg notFull]
  split_ifs <;> rfl

theorem signOf?_pack (u : UnpackedFloat) : signOf? (Float.Model.pack u).unpack = signOf? u := by
  cases u with
  | notANumber => rfl
  | infinity sign => cases sign <;> rfl
  | zero sign => cases sign <;> rfl
  | finite sign m e positive =>
    change signOf? (.unpack .binary64 (UnpackedFloat.pack .binary64 _)) = some sign
    rw [pack_finite]
    split
    · cases sign <;> rfl
    · rename_i inRange
      split
      · refine signOf?_packComponents _ fun full => inRange ?_
        have exponent := congrArg BitVec.toNat full
        rw [BitVec.toNat_ofNat, show (-1#11).toNat = 2047 by decide] at exponent
        omega
      · exact signOf?_packComponents _ (by decide)

theorem signOf?_roundWithAccuracy (sign : Sign) (m : ℕ) (e : ℤ) (accuracy : Accuracy) :
    signOf? (roundWithAccuracy .binary64 sign m e accuracy) = some sign := by
  unfold roundWithAccuracy
  simp only
  split <;> rfl

theorem signOf?_normalize {n : ℤ} (positive : 0 < n) (e : ℤ) (zero : Sign) :
    signOf? (.normalize .binary64 n e zero) = some .positive := by
  unfold UnpackedFloat.normalize
  rw [compare_gt_iff_gt.mpr positive]
  exact signOf?_roundWithAccuracy _ _ _ _

end Unpacked

def sign? (x : Float) : Option Sign := signOf? x.toModel.unpack

theorem sign?_eq_none_iff : sign? x = none ↔ x.isNaN = true := by
  change signOf? x.toModel.unpack = none ↔ x.toModel.unpack.isNaN = true
  cases x.toModel.unpack <;> simp [signOf?, UnpackedFloat.isNaN]

theorem unpack_of_isNaN (noNumber : x.isNaN = true) : x.toModel.unpack = .notANumber := by
  change x.toModel.unpack.isNaN = true at noNumber
  cases unpacked : x.toModel.unpack with
  | notANumber => rfl
  | _ =>
    rw [unpacked] at noNumber
    cases noNumber

theorem unpack_of_sign? (signed : sign? x = some s) (past : ¬ x.isFinite = true) :
    x.toModel.unpack = .infinity s := by
  change ¬ x.toModel.unpack.isFinite = true at past
  unfold sign? at signed
  cases unpacked : x.toModel.unpack with
  | infinity sign =>
    rw [unpacked] at signed
    cases signed
    rfl
  | notANumber =>
    rw [unpacked] at signed
    cases signed
  | _ =>
    rw [unpacked] at past
    exact absurd rfl past

theorem sign?_of_zero_lt (above : 0 < x) : sign? x = some .positive := by
  rw [lt_iff, unpack_ofNat_zero] at above
  unfold sign?
  cases unpacked : x.toModel.unpack with
  | notANumber =>
    rw [unpacked] at above
    cases above
  | infinity sign =>
    rw [unpacked] at above
    cases sign <;> first | rfl | cases above
  | zero sign =>
    rw [unpacked] at above
    cases sign <;> cases above
  | finite sign m e positive =>
    rw [unpacked] at above
    cases sign <;> first | rfl | cases above

theorem sign?_of_pos (known : exactValue? x = some b) (above : 0 < b) : sign? x = some .positive :=
  sign?_of_zero_lt ((zero_lt_iff known).mpr above)

theorem nonneg_of_sign? (known : exactValue? x = some b) (signed : sign? x = some .positive) : 0 ≤ b := by
  unfold sign? at signed
  rcases exactValue?_cases known with ⟨_, _, rfl⟩ | ⟨t, m, e, positive, unpacked, -, rfl⟩
  · exact le_rfl
  · rw [unpacked] at signed
    cases signed
    rw [apply_positive]
    exact (magnitude_pos positive e).le

theorem sign?_nearest (sign : Sign) (m : ℕ) (e : ℤ) : sign? (nearest sign m e) = some sign :=
  (signOf?_pack _).trans (signOf?_roundWithAccuracy _ _ _ _)

theorem sign?_mapMagnitude (f : ℕ → ℕ → ℕ) (x : Float) : sign? (mapMagnitude f x) = sign? x := by
  unfold mapMagnitude
  split
  · rename_i unpacked
    rw [sign?_nearest, sign?, unpacked]
    rfl
  · rfl

section Products

theorem sign?_mul (left : sign? x = some s) (right : sign? y = some t) :
    sign? (x * y) = none ∨ sign? (x * y) = some (s * t) := by
  have product : sign? (x * y) = signOf? (.mul .binary64 x.toModel.unpack y.toModel.unpack) := signOf?_pack _
  unfold sign? at left right
  rw [product]
  generalize x.toModel.unpack = u at left ⊢
  generalize y.toModel.unpack = w at right ⊢
  cases u <;> cases left <;> cases w <;> cases right <;>
    first | exact .inl rfl | exact .inr rfl | exact .inr (signOf?_roundWithAccuracy _ _ _ _)

theorem sign?_div (left : sign? x = some s) (right : sign? y = some t) :
    sign? (x / y) = none ∨ sign? (x / y) = some (s / t) := by
  have quotient : sign? (x / y) = signOf? (.div .binary64 x.toModel.unpack y.toModel.unpack) := signOf?_pack _
  unfold sign? at left right
  rw [quotient]
  generalize x.toModel.unpack = u at left ⊢
  generalize y.toModel.unpack = w at right ⊢
  cases u <;> cases left <;> cases w <;> cases right <;>
    first | exact .inl rfl | exact .inr rfl | exact .inr (signOf?_roundWithAccuracy _ _ _ _)

theorem isNaN_mul_left (noNumber : x.isNaN = true) (y : Float) : (x * y).isNaN = true := by
  change (Float.ofModel (.pack (UnpackedFloat.mul .binary64 x.toModel.unpack y.toModel.unpack))).isNaN = _
  rw [isNaN_ofModel_pack, unpack_of_isNaN noNumber]
  rfl

theorem isNaN_mul_right (noNumber : y.isNaN = true) (x : Float) : (x * y).isNaN = true := by
  change (Float.ofModel (.pack (UnpackedFloat.mul .binary64 x.toModel.unpack y.toModel.unpack))).isNaN = _
  rw [isNaN_ofModel_pack, unpack_of_isNaN noNumber]
  cases x.toModel.unpack <;> rfl

theorem isNaN_div_left (noNumber : x.isNaN = true) (y : Float) : (x / y).isNaN = true := by
  change (Float.ofModel (.pack (UnpackedFloat.div .binary64 x.toModel.unpack y.toModel.unpack))).isNaN = _
  rw [isNaN_ofModel_pack, unpack_of_isNaN noNumber]
  rfl

theorem sign?_square (finite : x.isFinite = true) : sign? (x * x) = some .positive := by
  have product : sign? (x * x) = signOf? (.mul .binary64 x.toModel.unpack x.toModel.unpack) := signOf?_pack _
  rw [product]
  rcases isFinite_cases finite with ⟨sign, unpacked⟩ | ⟨sign, m, e, positive, unpacked, -⟩
  · rw [unpacked]
    cases sign <;> rfl
  · rw [unpacked]
    refine (signOf?_roundWithAccuracy _ _ _ _).trans ?_
    cases sign <;> rfl

end Products

section Sums

theorem sign?_add (left : sign? x = some .positive) (right : sign? y = some .positive) :
    sign? (x + y) = some .positive := by
  have total : sign? (x + y) = signOf? (.add .binary64 x.toModel.unpack y.toModel.unpack) := signOf?_pack _
  unfold sign? at left right
  rw [total]
  generalize x.toModel.unpack = u at left ⊢
  generalize y.toModel.unpack = w at right ⊢
  cases u with
  | finite s m e positive =>
    cases left
    cases w with
    | finite t n f positive' =>
      cases right
      -- the mantissas are aligned, and stay positive
      have aligned : (0 : ℤ) < (m <<< (e - min e f).toNat : ℕ) + (n <<< (f - min e f).toNat : ℕ) := by
        rw [Nat.shiftLeft_eq, Nat.shiftLeft_eq]
        positivity
      exact signOf?_normalize aligned _ _
    | _ => cases right <;> rfl
  | _ => cases left <;> cases w <;> cases right <;> rfl

theorem sign?_negativeZero_add (right : sign? y = some .positive) : sign? (-0.0 + y) = some .positive := by
  have total : sign? (-0.0 + y) = signOf? (.add .binary64 (.zero .negative) y.toModel.unpack) := signOf?_pack _
  unfold sign? at right
  rw [total]
  cases unpacked : y.toModel.unpack with
  | notANumber =>
    rw [unpacked] at right
    cases right
  | _ =>
    rw [unpacked] at right
    cases right
    rfl

end Sums

section Infinities

theorem unpack_pack_infinity (sign : Sign) : (Float.Model.pack (.infinity sign)).unpack = .infinity sign := by
  cases sign <;> rfl

theorem eq_of_infinite (left : x.toModel.unpack = .infinity s) (right : y.toModel.unpack = .infinity s) : x = y := by
  rw [← ofModel_pack_unpack x, left, ← right, ofModel_pack_unpack]

theorem beq_zero_of_infinite (infinite : x.toModel.unpack = .infinity s) : (x == 0) = false := by
  change (x.toModel.unpack.compare (0 : Float).toModel.unpack == some .eq) = false
  rw [infinite, unpack_ofNat_zero]
  cases s <;> rfl

theorem unpack_sub_of_infinite (infinite : x.toModel.unpack = .infinity s) (finite : y.isFinite = true) :
    (x - y).toModel.unpack = .infinity s := by
  change (Float.Model.pack (.sub .binary64 x.toModel.unpack y.toModel.unpack)).unpack = _
  rw [infinite]
  rcases isFinite_cases finite with ⟨t, unpacked⟩ | ⟨t, m, e, positive, unpacked, -⟩
  · rw [unpacked]
    exact unpack_pack_infinity s
  · rw [unpacked]
    exact unpack_pack_infinity s

theorem unpack_div_of_infinite (infinite : x.toModel.unpack = .infinity s) (known : exactValue? y = some b)
    (above : 0 < b) : (x / y).toModel.unpack = .infinity s := by
  change (Float.Model.pack (.div .binary64 x.toModel.unpack y.toModel.unpack)).unpack = _
  rw [infinite]
  rcases exactValue?_cases known with ⟨_, _, rfl⟩ | ⟨t, m, e, positive, unpacked, -, rfl⟩
  · exact absurd above (lt_irrefl 0)
  · rw [unpacked]
    cases t with
    | positive => cases s <;> exact unpack_pack_infinity _
    | negative =>
      rw [apply_negative, neg_mul] at above
      exact absurd above (not_lt.mpr (neg_nonpos.mpr (magnitude_pos positive e).le))

theorem isNaN_sub_right (noNumber : y.isNaN = true) (x : Float) : (x - y).isNaN = true := by
  change (Float.ofModel (.pack (UnpackedFloat.sub .binary64 x.toModel.unpack y.toModel.unpack))).isNaN = _
  rw [isNaN_ofModel_pack, unpack_of_isNaN noNumber]
  cases x.toModel.unpack <;> rfl

theorem isFinite_of_infinite (infinite : x.toModel.unpack = .infinity s) : x.isFinite = false := by
  change x.toModel.unpack.isFinite = false
  rw [infinite]
  rfl

theorem sign?_sub_of_infinite (x : Float) (infinite : y.toModel.unpack = .infinity .positive) :
    sign? (x - y) = none ∨ sign? (x - y) = some .negative := by
  have difference : sign? (x - y) = signOf? (.sub .binary64 x.toModel.unpack y.toModel.unpack) := signOf?_pack _
  rw [difference, infinite]
  cases x.toModel.unpack with
  | infinity sign => cases sign <;> first | exact .inl rfl | exact .inr rfl
  | _ => first | exact .inl rfl | exact .inr rfl

end Infinities

end Calculator.Binary64
