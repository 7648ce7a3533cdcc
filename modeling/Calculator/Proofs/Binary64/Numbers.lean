import Calculator.Proofs.Binary64.Negation
import Calculator.Proofs.Binary64.Reciprocal

namespace Calculator.Binary64

open Float.Model (Format UnpackedFloat)
open Float.Model.UnpackedFloat (Sign Accuracy roundWithAccuracy)

variable {x y : Float} {a b : ℚ}

section Numbers

theorem isNaN_of_isFinite (finite : x.isFinite = true) : x.isNaN = false := by
  change x.toModel.unpack.isNaN = false
  rcases isFinite_cases finite with ⟨_, unpacked⟩ | ⟨_, _, _, _, unpacked, _⟩
  · rw [unpacked]
    rfl
  · rw [unpacked]
    rfl

theorem isNaN_of_exactValue? (known : exactValue? x = some a) : x.isNaN = false :=
  isNaN_of_isFinite (isFinite_iff_exactValue?.mpr ⟨a, known⟩)

theorem isNaN_ofModel_pack (u : UnpackedFloat) : (Float.ofModel (.pack u)).isNaN = u.isNaN := by
  cases u with
  | notANumber => rfl
  | infinity sign => cases sign <;> rfl
  | zero sign => exact isNaN_of_isFinite (isFinite_zero sign)
  | finite sign m e positive =>
    by_cases inRange : (Float.ofModel (.pack (.finite sign m e positive))).isFinite = true
    · exact isNaN_of_isFinite inRange
    · change (Float.Model.pack (.finite sign m e positive)).unpack.isNaN = _
      rw [unpack_pack_of_overflow inRange]
      rfl

theorem isNaN_roundWithAccuracy (sign : Sign) (m : ℕ) (e : ℤ) (accuracy : Accuracy) :
    (roundWithAccuracy .binary64 sign m e accuracy).isNaN = false := by
  unfold roundWithAccuracy
  simp only
  split <;> rfl

theorem isNaN_normalize (n e : ℤ) (zero : Sign) : (UnpackedFloat.normalize .binary64 n e zero).isNaN = false := by
  unfold UnpackedFloat.normalize
  split
  · exact isNaN_roundWithAccuracy _ _ _ _
  · rfl
  · exact isNaN_roundWithAccuracy _ _ _ _

theorem isNaN_negate (x : Float) : (-x).isNaN = x.isNaN := by
  change (-x).toModel.unpack.isNaN = x.toModel.unpack.isNaN
  rw [unpack_neg]
  cases x.toModel.unpack <;> rfl

theorem isNaN_round (number : x.isNaN = false) : (round x).isNaN = false := by
  unfold round mapMagnitude
  split
  · unfold nearest
    rw [isNaN_ofModel_pack]
    exact isNaN_roundWithAccuracy _ _ _ _
  · exact number

theorem isNaN_add (left : exactValue? x = some a) (right : y.isNaN = false) : (x + y).isNaN = false := by
  change (Float.ofModel (.pack (UnpackedFloat.add .binary64 x.toModel.unpack y.toModel.unpack))).isNaN = _
  change y.toModel.unpack.isNaN = false at right
  rw [isNaN_ofModel_pack]
  rcases exactValue?_cases left with ⟨s, unpacked, -⟩ | ⟨s, m, e, positive, unpacked, -, -⟩
  · rw [unpacked]
    cases other : y.toModel.unpack with
    | notANumber =>
      rw [other] at right
      cases right
    | zero t => cases s <;> cases t <;> rfl
    | _ => rfl
  · rw [unpacked]
    cases other : y.toModel.unpack with
    | notANumber =>
      rw [other] at right
      cases right
    | finite t n f positive' => exact isNaN_normalize _ _ _
    | _ => rfl

theorem isNaN_div (left : x.isNaN = false) (right : exactValue? y = some b) (nonzero : b ≠ 0) :
    (x / y).isNaN = false := by
  change (Float.ofModel (.pack (UnpackedFloat.div .binary64 x.toModel.unpack y.toModel.unpack))).isNaN = _
  change x.toModel.unpack.isNaN = false at left
  rw [isNaN_ofModel_pack]
  rcases exactValue?_cases right with ⟨_, _, rfl⟩ | ⟨t, n, f, positive, unpacked, -, -⟩
  · exact absurd rfl nonzero
  · rw [unpacked]
    cases other : x.toModel.unpack with
    | notANumber =>
      rw [other] at left
      cases left
    | finite s m e positive' => exact isNaN_roundWithAccuracy _ _ _ _
    | _ => rfl

end Numbers

section Operands

theorem isFinite_of_pack {u : UnpackedFloat} (finite : (Float.ofModel (.pack u)).isFinite = true) :
    u.isFinite = true := by
  cases u with
  | notANumber => exact finite
  | infinity sign => cases sign <;> exact finite
  | _ => rfl

theorem isFinite_of_mul (finite : (x * y).isFinite = true) : x.isFinite = true ∧ y.isFinite = true := by
  have product := isFinite_of_pack (u := .mul .binary64 x.toModel.unpack y.toModel.unpack) finite
  change x.toModel.unpack.isFinite = true ∧ y.toModel.unpack.isFinite = true
  generalize x.toModel.unpack = u at product ⊢
  generalize y.toModel.unpack = w at product ⊢
  cases u <;> cases w <;> first | exact ⟨rfl, rfl⟩ | cases product

theorem isFinite_of_add (finite : (x + y).isFinite = true) : x.isFinite = true ∧ y.isFinite = true := by
  have total := isFinite_of_pack (u := .add .binary64 x.toModel.unpack y.toModel.unpack) finite
  change x.toModel.unpack.isFinite = true ∧ y.toModel.unpack.isFinite = true
  generalize x.toModel.unpack = u at total ⊢
  generalize y.toModel.unpack = w at total ⊢
  cases u with
  | infinity s =>
    cases w with
    | infinity t => cases s <;> cases t <;> cases total
    | _ => cases total
  | _ => cases w <;> first | exact ⟨rfl, rfl⟩ | cases total

theorem isFinite_of_div (finite : (x / y).isFinite = true) : x.isFinite = true := by
  have quotient := isFinite_of_pack (u := .div .binary64 x.toModel.unpack y.toModel.unpack) finite
  change x.toModel.unpack.isFinite = true
  generalize x.toModel.unpack = u at quotient ⊢
  generalize y.toModel.unpack = w at quotient
  cases u <;> cases w <;> first | rfl | cases quotient

theorem isFinite_of_mulPow {r f : Float} {n : ℕ} (finite : (mulPow r f n).isFinite = true) :
    r.isFinite = true ∧ (0 < n → f.isFinite = true) := by
  induction n using Nat.strongRecOn generalizing r f with
  | ind n ih =>
    by_cases finished : n = 0
    · rw [finished, mulPow_zero] at finite
      exact ⟨finite, fun positive => absurd finished positive.ne'⟩
    · rw [mulPow_step (Nat.pos_of_ne_zero finished)] at finite
      obtain ⟨result, factor⟩ := ih (n / 2) (by omega) finite
      split at result
      · obtain ⟨first, second⟩ := isFinite_of_mul result
        exact ⟨first, fun _ => second⟩
      · exact ⟨result, fun _ => (isFinite_of_mul (factor (by omega))).1⟩

theorem isFinite_square_of_natPow {n : ℕ} (finite : (natPow x n).isFinite = true) (several : 2 ≤ n) :
    (x * x).isFinite = true := by
  rw [natPow, mulPow_step (by omega)] at finite
  exact (isFinite_of_mulPow finite).2 (by omega)

end Operands

end Calculator.Binary64
