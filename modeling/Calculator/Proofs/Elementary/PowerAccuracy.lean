import Calculator.Proofs.Elementary.ExponentialAccuracy

namespace Calculator.Elementary

open Binary64 (exactValue? natPow mulPow Near LogNear roundoff)

variable {x y z : Float} {q : ℚ} {v w δ : ℝ} {n : ℕ}

section RealExponents

theorem abs_log_le (known : exactValue? x = some q) (positive : 0 < q) : |Real.log q| ≤ 746 := by
  have representable := Binary64.representable_of_exactValue? known
  have above : (0 : ℝ) < q := Rat.cast_pos.mpr positive
  have least := Rat.cast_le (K := ℝ) |>.mpr (representable.twoPow_le positive)
  have most := Rat.cast_lt (K := ℝ) |>.mpr (Binary64.representable_iff.mp representable).1
  rw [Rat.cast_zpow, Rat.cast_ofNat] at least
  rw [abs_of_pos positive, Rat.cast_pow, Rat.cast_ofNat] at most
  have lower := Real.log_le_log (zpow_pos two_pos _) least
  have upper := Real.log_le_log above most.le
  rw [Real.log_zpow] at lower
  rw [Real.log_pow] at upper
  push_cast at lower upper
  rw [abs_le]
  constructor <;> linarith [Real.log_two_lt_d9]

theorem near_exponent (known : exactValue? x = some q) (positive : 0 < q) (exponent : Near y w (roundoff * |w|))
    (least : 1 / 2 ^ 90 ≤ |w|) (most : |w| ≤ 2 ^ 20) :
    Near (y * lnPositive x) (w * Real.log q) (|w| * (142 + 12 * |Real.log q|) * roundoff) := by
  have error := Binary64.roundoff_pos
  have tiny := Binary64.roundoff_lt
  have logarithm := abs_log_le known positive
  have sign := abs_nonneg (Real.log q)
  have size := abs_nonneg w
  have scaled : |w| * roundoff * ((140 + 9 * |Real.log q|) * roundoff) ≤ |w| * roundoff * (1 / 10) :=
    mul_le_mul_of_nonneg_left (by nlinarith) (by positivity)
  refine (exponent.mul (near_lnPositive known positive) (κ := |w| * (141 + 10 * |Real.log q|) * roundoff)
    (M := |w| * (|Real.log q| + 1)) (Binary64.inRange_of_le ?_ ?_) ?_ ?_).mono ?_
  · nlinarith
  · nlinarith
  · nlinarith
  · rw [abs_mul]
    nlinarith [mul_nonneg size sign]
  · nlinarith [mul_nonneg size error.le]

theorem logNear_realPower (known : exactValue? x = some q) (positive : 0 < q) (exponent : Near y w (roundoff * |w|))
    (least : 1 / 2 ^ 90 ≤ |w|) (most : |w| ≤ 2 ^ 20) (normal : -690 ≤ w * Real.log q) (result : realPower x y = .ok z) :
    LogNear z (w * Real.log q) ((350 + 142 * |w| + 18 * |w * Real.log q|) * roundoff) := by
  have error := Binary64.roundoff_pos
  have tiny := Binary64.roundoff_lt
  have logarithm := abs_log_le known positive
  obtain ⟨p, product, close⟩ := near_exponent known positive exponent least most
  have error' : |w| * (142 + 12 * |Real.log q|) * roundoff ≤ 1 := by
    have size : |w| * (142 + 12 * |Real.log q|) ≤ 2 ^ 20 * 10000 :=
      mul_le_mul most (by linarith) (by positivity) (by norm_num)
    nlinarith
  have least' : -700 ≤ p := by
    rw [← Rat.cast_le (K := ℝ)]
    push_cast
    linarith [(abs_le.mp close).1]
  rw [realPower_of_pos known positive] at result
  have size : |(p : ℝ)| ≤ |w * Real.log q| + 1 := by
    have apart := abs_sub_abs_le_abs_sub (p : ℝ) (w * Real.log q)
    linarith
  refine ((logNear_exp product least' result).trans close).mono ?_
  rw [abs_mul] at size ⊢
  nlinarith

end RealExponents

section NaturalExponents

variable {r f : Float} {ρ φ ε ℓ g : ℝ}

theorem logNear_square (factor : LogNear f φ δ) (finite : (f * f).isFinite = true)
    (lower : g ≤ φ - δ - 2 * roundoff) (nonpositive : g ≤ 0) (several : 2 ≤ n) (normal : -700 ≤ n * g) :
    LogNear (f * f) (φ + φ) (δ + δ + 2 * roundoff) := by
  have error := Binary64.roundoff_pos
  have count : (2 : ℝ) ≤ n := by exact_mod_cast several
  have ordered : n * g ≤ 2 * g := mul_le_mul_of_nonpos_right count nonpositive
  exact factor.mul factor finite (by linarith)

/-- The exponents and errors of the result and of the factor make up those of the power at every step. Lower bounds of
both keep their products from being subnormal. -/
theorem logNear_mulPow (result : LogNear r ρ ε) (factor : LogNear f φ δ) (finite : (mulPow r f n).isFinite = true)
    (lower : ℓ ≤ ρ - ε) (lower' : g ≤ φ - δ - 2 * roundoff) (nonpositive : ℓ ≤ 0) (nonpositive' : g ≤ 0)
    (normal : -700 ≤ ℓ + n * g) : LogNear (mulPow r f n) (ρ + n * φ) (ε + n * (δ + 2 * roundoff)) := by
  have error := Binary64.roundoff_pos
  induction n using Nat.strongRecOn generalizing r f ρ φ ε δ ℓ g with
  | ind n ih =>
    rcases Nat.eq_zero_or_pos n with rfl | positive
    · rw [Binary64.mulPow_zero]
      simpa using result
    rw [Binary64.mulPow_step positive] at finite ⊢
    obtain ⟨k, rfl | rfl⟩ := Nat.even_or_odd' n
    · rw [if_neg (by omega), Nat.mul_div_cancel_left k two_pos] at finite ⊢
      push_cast at normal ⊢
      have square := logNear_square factor ((Binary64.isFinite_of_mulPow finite).2 (by omega)) lower' nonpositive'
        (by omega : 2 ≤ 2 * k) (by push_cast; linarith)
      have power := ih k (by omega) result square finite lower (by linarith : 2 * g ≤ _) nonpositive (by linarith)
        (by linarith)
      rw [show ρ + 2 * k * φ = ρ + k * (φ + φ) by ring,
        show ε + 2 * k * (δ + 2 * roundoff) = ε + k * (δ + δ + 2 * roundoff + 2 * roundoff) by ring]
      exact power
    · rw [if_pos (by omega), show (2 * k + 1) / 2 = k by omega] at finite ⊢
      push_cast at normal ⊢
      have counts : 0 ≤ (k : ℝ) := Nat.cast_nonneg k
      have product := result.mul factor (Binary64.isFinite_of_mulPow finite).1 (by nlinarith)
      rcases Nat.eq_zero_or_pos k with rfl | more
      · rw [Binary64.mulPow_zero, Nat.cast_zero, mul_zero, zero_add, one_mul, one_mul, ← add_assoc]
        exact product
      · have square := logNear_square factor ((Binary64.isFinite_of_mulPow finite).2 more) lower' nonpositive'
          (by omega : 2 ≤ 2 * k + 1) (by push_cast; linarith)
        have power := ih k (by omega) product square finite (by linarith : ℓ + g ≤ _) (by linarith : 2 * g ≤ _)
          (by linarith) (by linarith) (by linarith)
        rw [show ρ + (2 * k + 1) * φ = ρ + φ + k * (φ + φ) by ring,
          show ε + (2 * k + 1) * (δ + 2 * roundoff) =
            ε + δ + 2 * roundoff + k * (δ + δ + 2 * roundoff + 2 * roundoff) by ring]
        exact power

theorem logNear_natPow (base : LogNear x v δ) (finite : (natPow x n).isFinite = true) (lower : g ≤ v - δ - 2 * roundoff)
    (nonpositive : g ≤ 0) (normal : -700 ≤ n * g) : LogNear (natPow x n) (n * v) (n * (δ + 2 * roundoff)) := by
  have one : LogNear 1 0 0 := by
    have known := Binary64.logNear_of_exactValue? Binary64.exactValue?_ofNat_one one_pos
    rwa [Rat.cast_one, Real.log_one] at known
  have power := logNear_mulPow (ℓ := 0) one base finite (by norm_num) lower le_rfl nonpositive (by linarith)
  rwa [zero_add, zero_add] at power

end NaturalExponents

end Calculator.Elementary
