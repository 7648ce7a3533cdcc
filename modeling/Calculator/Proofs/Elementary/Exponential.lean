import Calculator.Proofs.Elementary.Power

namespace Calculator.Elementary

open Binary64 (exactValue?)

variable {x y : Float} {a b : ℚ}

/-- A finite result, or none because it is too great. -/
def FiniteOrOverflow (outcome : Except DomainError Float) : Prop :=
  outcome = .error .overflow ∨ ∃ z, outcome = .ok z ∧ z.isFinite = true

theorem finiteOrOverflow_finite (x : Float) : FiniteOrOverflow (finite x) := by
  unfold finite
  split
  · rename_i inRange
    exact .inr ⟨x, rfl, inRange⟩
  · exact .inl rfl

theorem finiteOrOverflow_of_exactValue? (known : exactValue? x = some a) : FiniteOrOverflow (.ok x) :=
  .inr ⟨x, rfl, Binary64.isFinite_iff_exactValue?.mpr ⟨a, known⟩⟩

theorem finiteOrOverflow_exp (x : Float) : FiniteOrOverflow (exp x) := by
  unfold exp
  split
  · exact .inl rfl
  · split
    · exact finiteOrOverflow_of_exactValue? Binary64.exactValue?_ofNat_zero
    · exact finiteOrOverflow_finite _

theorem not_isNaN_or_isInf (known : exactValue? x = some a) : ¬ (x.isNaN || x.isInf) = true := by
  change ¬ (x.toModel.unpack.isNaN || x.toModel.unpack.isInf) = true
  rcases Binary64.exactValue?_cases known with ⟨_, unpacked, -⟩ | ⟨_, _, _, _, unpacked, -, -⟩
  · rw [unpacked]
    nofun
  · rw [unpacked]
    nofun

theorem ln_of_pos (known : exactValue? x = some a) (positive : 0 < a) : ln x = .ok (lnPositive x) := by
  have above : ¬ x ≤ 0 := fun below =>
    positive.not_ge ((Binary64.le_iff_value_le known Binary64.exactValue?_ofNat_zero).mp below)
  rw [ln, if_neg (not_isNaN_or_isInf known), if_neg above]

theorem realPower_of_pos (known : exactValue? x = some a) (positive : 0 < a) (y : Float) :
    realPower x y = exp (y * lnPositive x) := by
  rw [realPower, if_pos ((Binary64.zero_lt_iff known).mpr positive), ln_of_pos known positive]
  rfl

theorem lnPositive_one : lnPositive 1 = 0 := by decide +kernel

theorem eq_ok_of_toOption {outcome : Except DomainError Float} (result : outcome.toOption = some x) :
    outcome = .ok x := by
  cases outcome with
  | error e => cases result
  | ok z => exact congrArg Except.ok (Option.some.inj result)

theorem exp_zero : exp 0 = .ok 1 := eq_ok_of_toOption (by decide +kernel)

theorem mul_zero_of_pos (known : exactValue? y = some b) (positive : 0 < b) : y * 0 = 0 := by
  change Float.ofModel (.pack (Float.Model.UnpackedFloat.mul .binary64 y.toModel.unpack (0 : Float).toModel.unpack)) = 0
  rw [Binary64.unpack_ofNat_zero]
  rcases Binary64.exactValue?_cases known with ⟨_, _, rfl⟩ | ⟨sign, n, f, _, unpacked, _, rfl⟩
  · exact absurd positive (lt_irrefl 0)
  · rw [unpacked]
    cases sign with
    | positive => rfl
    | negative =>
      have magnitude : (0 : ℚ) ≤ n * 2 ^ f := mul_nonneg (Nat.cast_nonneg n) (Binary64.unit_pos f).le
      rw [Binary64.apply_negative, neg_mul] at positive
      exact absurd positive (neg_nonpos.mpr magnitude).not_gt

theorem realPower_one (known : exactValue? y = some b) (positive : 0 < b) : realPower 1 y = .ok 1 := by
  rw [realPower_of_pos Binary64.exactValue?_ofNat_one one_pos, lnPositive_one, mul_zero_of_pos known positive, exp_zero]

theorem realPower_of_unit (base : exactValue? x = some a) (unit : a = 0 ∨ a = 1) (exponent : exactValue? y = some b)
    (positive : 0 < b) : ∃ r, realPower x y = .ok r ∧ exactValue? r = some a := by
  rcases unit with rfl | rfl
  · rw [realPower_zero_base base, if_pos ((Binary64.zero_lt_iff exponent).mpr positive)]
    exact ⟨0, rfl, Binary64.exactValue?_ofNat_zero⟩
  · have one := (Binary64.eq_or_zero_of_exactValue? base Binary64.exactValue?_ofNat_one).resolve_right one_ne_zero
    rw [one, realPower_one exponent positive]
    exact ⟨1, rfl, Binary64.exactValue?_ofNat_one⟩

end Calculator.Elementary
