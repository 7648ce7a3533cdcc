import Calculator.Proofs.Binary64.Packing

namespace Calculator.Binary64

open Float.Model.UnpackedFloat (Sign)

/-- The exact value of a real. An infinity and what is no number have none. -/
def exactValue? (x : Float) : Option ℚ :=
  match x.toModel.unpack with
  | .zero _ => some 0
  | .finite sign mantissa exponent _ => some (sign.apply mantissa * 2 ^ exponent)
  | _ => none

theorem isFinite_iff_exactValue? {x : Float} : x.isFinite = true ↔ ∃ q, exactValue? x = some q := by
  change x.toModel.unpack.isFinite = true ↔ _
  unfold exactValue?
  cases x.toModel.unpack with
  | infinity sign => exact ⟨nofun, nofun⟩
  | notANumber => exact ⟨nofun, nofun⟩
  | zero sign => exact ⟨fun _ => ⟨_, rfl⟩, fun _ => rfl⟩
  | finite sign m e positive => exact ⟨fun _ => ⟨_, rfl⟩, fun _ => rfl⟩

theorem apply_mul (sign : Sign) (m n : Nat) : sign.apply ((m * n : Nat) : Int) = sign.apply m * n := by
  cases sign <;> simp [Sign.apply]

theorem dvd_of_apply_eq {sign : Sign} {m u : Nat} {n : Int} (same : sign.apply (m : Int) = n * u) :
    u ∣ m := by
  have multiple : (u : Int) ∣ sign.apply (m : Int) := ⟨n, by rw [same, Int.mul_comm]⟩
  cases sign with
  | positive => exact Int.natCast_dvd_natCast.mp multiple
  | negative => exact Int.natCast_dvd_natCast.mp (Int.dvd_neg.mp multiple)

theorem toInt?_eq_some_iff {x : Float} {n : Int} : toInt? x = some n ↔ exactValue? x = some (n : ℚ) := by
  unfold toInt? exactValue?
  cases x.toModel.unpack with
  | infinity sign => exact ⟨nofun, nofun⟩
  | notANumber => exact ⟨nofun, nofun⟩
  | zero sign => simp [eq_comm]
  | finite sign m e positive =>
    cases e with
    | ofNat k =>
      have scaled : sign.apply ((m * Nat.pow 2 k : Nat) : Int) = sign.apply m * 2 ^ k := by
        rw [apply_mul]
        simp
      simp only [Option.some.injEq, Int.ofNat_eq_natCast, zpow_natCast]
      rw [← Int.cast_inj (α := ℚ), ← Nat.cast_mul, scaled]
      push_cast
      rfl
    | negSucc k =>
      have unit : (0 : ℚ) < 2 ^ (k + 1) := by positivity
      have value : (sign.apply (m : Int) : ℚ) * 2 ^ Int.negSucc k = n ↔
          sign.apply (m : Int) = n * (2 ^ (k + 1) : Nat) := by
        rw [zpow_negSucc, ← div_eq_mul_inv, div_eq_iff unit.ne']
        exact_mod_cast Iff.rfl
      simp only [Option.some.injEq, value]
      change (if m % 2 ^ (k + 1) = 0 then some (sign.apply ((m / 2 ^ (k + 1) : Nat) : Int)) else none) =
        some n ↔ _
      split
      · rename_i whole
        obtain ⟨q, rfl⟩ := Nat.dvd_of_mod_eq_zero whole
        rw [Nat.mul_div_cancel_left _ (Nat.two_pow_pos _), Nat.mul_comm, apply_mul, Option.some.injEq]
        exact (Int.mul_eq_mul_right_iff (by positivity)).symm
      · rename_i broken
        exact ⟨nofun, fun same => absurd (Nat.mod_eq_zero_of_dvd (dvd_of_apply_eq same)) broken⟩

end Calculator.Binary64
