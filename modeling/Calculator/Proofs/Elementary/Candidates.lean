import Calculator.Proofs.Elementary.GreatDegrees

namespace Calculator.Elementary

open Binary64 (exactValue? Near roundoff)

section Reals

variable {m b e p q v t ε ρ : ℝ}

theorem root_mul_le (least : 1 - t ≤ q) (small : t < 1) (nonnegative : 0 ≤ t) (degree : 1 ≤ b) :
    Real.exp (Real.log q / b) * (1 - t) ≤ q := by
  have positive : 0 < q := by linarith
  rcases le_total 1 q with above | below
  · have part : Real.log q / b ≤ Real.log q := div_le_self (Real.log_nonneg above) degree
    calc Real.exp (Real.log q / b) * (1 - t) ≤ Real.exp (Real.log q / b) :=
          mul_le_of_le_one_right (Real.exp_pos _).le (by linarith)
      _ ≤ Real.exp (Real.log q) := Real.exp_le_exp.mpr part
      _ = q := Real.exp_log positive
  · have part : Real.log q / b ≤ 0 :=
      div_nonpos_of_nonpos_of_nonneg (Real.log_nonpos positive.le below) (by linarith)
    calc Real.exp (Real.log q / b) * (1 - t) ≤ 1 * (1 - t) :=
          mul_le_mul_of_nonneg_right (Real.exp_le_one_iff.mpr part) (by linarith)
      _ ≤ q := by linarith

theorem abs_log_sub_root_le (degree : 1 ≤ b) (one_le : 1 ≤ p)
    (near : |Real.log p - b * Real.log m| ≤ b * ε) (test : |p - q| ≤ t) (small : t ≤ 1 / 4) :
    |Real.log m - Real.log q / b| ≤ ε + (t / q + 2 * (t / q) ^ 2) / b := by
  have lower := (abs_le.mp test).2
  have positive : 0 < q := by linarith
  have nonnegative := (abs_nonneg _).trans test
  have proportion : t / q ≤ 1 / 2 := by
    rw [div_le_iff₀ positive]
    linarith
  obtain ⟨-, close⟩ := Binary64.abs_log_sub_log_le positive proportion (test.trans_eq (div_mul_cancel₀ t positive.ne').symm)
  have split : Real.log m - Real.log q / b = (Real.log p - Real.log q - (Real.log p - b * Real.log m)) / b := by
    field_simp
    ring
  rw [split, abs_div, abs_of_pos (by linarith : 0 < b), div_le_iff₀ (by linarith), add_mul, div_mul_cancel₀ _ (by linarith)]
  linarith [abs_sub (Real.log p - Real.log q) (Real.log p - b * Real.log m)]

theorem abs_sub_of_log_near (above : 1 ≤ m) (bits : Real.log m ≤ 37) (degree : 1 ≤ b) (nonnegative : 0 ≤ e)
    (small : e ≤ 2 / 10 ^ 10) (share : e * Real.exp ρ ≤ 1 / 10 ^ 10 + 1 / (2 * 10 ^ 18))
    (close : |Real.log m - ρ| ≤ 1158 * roundoff + e / b)
    (root : |v - Real.exp ρ| ≤ (1200 + 41 * |ρ|) * roundoff * Real.exp ρ) :
    |m - v| ≤ (1 / 10 ^ 10 + 1 / 10 ^ 18) / b + 1 / 2 * (1 / 10 ^ 12) * m := by
  have least : 0 ≤ Real.log m := Real.log_nonneg above
  have part : e / b ≤ e := div_le_self nonnegative degree
  have part' : 0 ≤ e / b := div_nonneg nonnegative (by linarith)
  have error : 1158 * roundoff + e / b ≤ 3 / 10 ^ 10 := by
    rw [Binary64.roundoff_eq]
    linarith
  have apart := Binary64.abs_sub_exp_le (by linarith) close (by linarith)
  have size : |ρ| ≤ 38 := by
    have triangle := abs_sub_abs_le_abs_sub ρ (Real.log m)
    rw [abs_sub_comm, abs_of_nonneg least] at triangle
    linarith
  have positive := Real.exp_pos ρ
  generalize Real.exp ρ = r at share apart root positive
  have moved : |m - r| ≤ 1160 * roundoff * r + (1 / 10 ^ 10 + 1 / 10 ^ 18) / b := by
    refine apart.trans ?_
    generalize fraction : e / b = f at part part' error
    have share' : f * r ≤ (1 / 10 ^ 10 + 1 / (2 * 10 ^ 18)) / b := by
      rw [← fraction, div_mul_eq_mul_div]
      gcongr
    have square : (1158 * roundoff + f) ^ 2 ≤ (1158 * roundoff + f) * (3 / 10 ^ 10) := by
      rw [sq, Binary64.roundoff_eq]
      exact mul_le_mul_of_nonneg_left (by linarith) (by linarith)
    have whole : (1 + 3 / 10 ^ 10) * ((1 / 10 ^ 10 + 1 / (2 * 10 ^ 18)) / b) ≤ (1 / 10 ^ 10 + 1 / 10 ^ 18) / b := by
      rw [mul_div_assoc']
      gcongr
      norm_num
    calc (1158 * roundoff + f + (1158 * roundoff + f) ^ 2) * r
        ≤ (1 + 3 / 10 ^ 10) * (1158 * roundoff + f) * r := mul_le_mul_of_nonneg_right (by linarith) positive.le
      _ = (1 + 3 / 10 ^ 10) * 1158 * roundoff * r + (1 + 3 / 10 ^ 10) * (f * r) := by ring
      _ ≤ 1160 * roundoff * r + (1 / 10 ^ 10 + 1 / 10 ^ 18) / b := by
        rw [Binary64.roundoff_eq]
        linarith
  have rest : |v - r| ≤ 2758 * roundoff * r := by
    refine root.trans (mul_le_mul_of_nonneg_right (mul_le_mul_of_nonneg_right ?_ Binary64.roundoff_pos.le) positive.le)
    linarith
  have inverse : (1 / 10 ^ 10 + 1 / 10 ^ 18) / b ≤ 1 / 10 ^ 10 + 1 / 10 ^ 18 := div_le_self (by norm_num) degree
  have bound : r ≤ 101 / 100 * m := by
    have lower := (abs_le.mp moved).1
    rw [Binary64.roundoff_eq] at lower
    linarith
  rw [Binary64.roundoff_eq] at moved rest
  linarith [abs_sub_le m r v, abs_sub_comm r v]

theorem abs_sub_root_le (above : 1 ≤ m) (most : m ≤ 2 ^ 53) (degree : 1 ≤ b) (one_le : 1 ≤ p)
    (near : |Real.log p - b * Real.log m| ≤ b * (492 + 18 * Real.log m) * roundoff)
    (test : |p - q| ≤ 1 / 10 ^ 10 + 1 / 10 ^ 26)
    (root : |v - Real.exp (Real.log q / b)| ≤
      (1200 + 41 * |Real.log q / b|) * roundoff * Real.exp (Real.log q / b)) :
    |m - v| ≤ (1 / 10 ^ 10 + 1 / 10 ^ 18) / b + 1 / 2 * (1 / 10 ^ 12) * m := by
  have least : 0 ≤ Real.log m := Real.log_nonneg above
  have bits : Real.log m ≤ 37 := by
    have bound := Real.log_le_log (by linarith) most
    rw [Real.log_pow] at bound
    push_cast at bound
    linarith [Real.log_two_lt_d9]
  have lower := (abs_le.mp test).2
  have radicand := root_mul_le (t := 1 / 10 ^ 10 + 1 / 10 ^ 26) (by linarith) (by norm_num) (by norm_num) degree (q := q)
  have noise : (492 + 18 * Real.log m) * roundoff ≤ 1158 * roundoff :=
    mul_le_mul_of_nonneg_right (by linarith) Binary64.roundoff_pos.le
  have close := abs_log_sub_root_le (ε := 1158 * roundoff) degree one_le
    (near.trans (by rw [mul_assoc]; exact mul_le_mul_of_nonneg_left noise (by linarith))) test (by norm_num)
  generalize Real.log q / b = ρ at radicand close root
  have positive := Real.exp_pos ρ
  -- the proportion of the tolerance to the radicand, and at the root
  have nonnegative : 0 ≤ (1 / 10 ^ 10 + 1 / 10 ^ 26) / q := div_nonneg (by norm_num) (by linarith)
  have proportion : (1 / 10 ^ 10 + 1 / 10 ^ 26) / q ≤ 1001 / 10 ^ 13 := by
    rw [div_le_iff₀ (by linarith)]
    linarith
  have share : (1 / 10 ^ 10 + 1 / 10 ^ 26) / q * Real.exp ρ ≤ 1 / 10 ^ 10 + 2 / 10 ^ 20 := by
    rw [div_mul_eq_mul_div, div_le_iff₀ (by linarith)]
    nlinarith
  generalize (1 / 10 ^ 10 + 1 / 10 ^ 26) / q = d at nonnegative proportion share close
  have share' : (d + 2 * d ^ 2) * Real.exp ρ ≤ 1 / 10 ^ 10 + 1 / (2 * 10 ^ 18) :=
    calc (d + 2 * d ^ 2) * Real.exp ρ = (1 + 2 * d) * (d * Real.exp ρ) := by ring
      _ ≤ (1 + 2 / 10 ^ 9) * (1 / 10 ^ 10 + 2 / 10 ^ 20) := by
        gcongr
        linarith
      _ ≤ 1 / 10 ^ 10 + 1 / (2 * 10 ^ 18) := by norm_num
  have small : d + 2 * d ^ 2 ≤ 2 / 10 ^ 10 := by nlinarith
  exact abs_sub_of_log_near above bits degree (by positivity) small share' close root

end Reals

section Candidates

variable {a e x y z : Float} {q b p : ℚ} {m : ℕ}

variable (known : exactValue? a = some q) (degree : exactValue? y = some b) (above : 1 < b)
  (estimate : power a (1 / y) = .ok e) (first : 1 ≤ m) (last : m ≤ 2 ^ 53)
include known degree above estimate first last

theorem root_near_of_powerNear (few : b ≤ 2 ^ 37) (power : PowerNear m b p)
    (test : |p - q| ≤ 1 / 10 ^ 10 + 1 / 10 ^ 26) :
    ∃ v, exactValue? (newtonStep e a y) = some v ∧
      |(m : ℝ) - v| ≤ (1 / 10 ^ 10 + 1 / 10 ^ 18) / b + 1 / 2 * (1 / 10 ^ 12) * m := by
  have one_le := power.one_le
  have least : 9 / 10 ≤ q := by linarith [(abs_le.mp test).2]
  have positive : 0 < q := by linarith
  have above' : (1 : ℝ) < b := by exact_mod_cast above
  have logarithm : -1 ≤ Real.log q := by
    have least' : (9 / 10 : ℝ) ≤ q := by
      have cast := Rat.cast_le (K := ℝ) |>.mpr least
      push_cast at cast
      exact cast
    have inverse : (q : ℝ)⁻¹ ≤ 2 := by
      rw [inv_le_comm₀ (by linarith) two_pos]
      linarith
    linarith [Real.one_sub_inv_le_log_of_pos (by linarith : (0 : ℝ) < q)]
  have test' : |(p : ℝ) - q| ≤ 1 / 10 ^ 10 + 1 / 10 ^ 26 := by
    have cast := Rat.cast_le (K := ℝ) |>.mpr test
    push_cast at cast
    exact cast
  obtain ⟨v, value, close⟩ := near_root known positive degree above few logarithm estimate
  have near := power.near
  rw [Rat.cast_natCast] at near
  exact ⟨v, value, abs_sub_root_le (by exact_mod_cast first) (by exact_mod_cast last) above'.le
    (by exact_mod_cast one_le) near test' close⟩

theorem root_near_of_power (base : exactValue? x = some (m : ℚ)) (result : power x y = .ok z) :
    ∃ p, exactValue? z = some p ∧ 1 ≤ p ∧ (|p - q| ≤ 1 / 10 ^ 10 + 1 / 10 ^ 26 →
      ∃ v, exactValue? (newtonStep e a y) = some v ∧
        |(m : ℝ) - v| ≤ 1 / 10 ^ 10 + 1 / 10 ^ 18 + 1 / 2 * (1 / 10 ^ 12) * m) := by
  obtain ⟨p, raised, near⟩ := powerNear_of_whole base degree rfl first above.le result
  have above' : (1 : ℝ) < b := by exact_mod_cast above
  refine ⟨p, raised, near.one_le, fun test => ?_⟩
  rcases le_or_gt b (2 ^ 37) with few | great
  · obtain ⟨v, value, close⟩ := root_near_of_powerNear known degree above estimate first last few near test
    have part : (1 / 10 ^ 10 + 1 / 10 ^ 18) / (b : ℝ) ≤ 1 / 10 ^ 10 + 1 / 10 ^ 18 := div_le_self (by norm_num) above'.le
    exact ⟨v, value, close.trans (by linarith)⟩
  · have unit := base_eq_one_of_great base degree rfl first great result
    rw [unit] at base
    obtain ⟨w, success, one⟩ := exists_power_of_unit base (.inr rfl) degree (one_pos.trans above)
    obtain rfl := Except.ok.inj (result.symm.trans success)
    obtain rfl := Option.some.inj (raised.symm.trans one)
    rw [abs_sub_comm] at test
    obtain ⟨v, value, close⟩ := root_of_great_degree known (test.trans (by norm_num)) degree great estimate
    have unit' : (m : ℝ) = 1 := by exact_mod_cast unit
    have close' : |(v : ℝ) - 1| ≤ 1 / 10 ^ 11 := by
      have cast := Rat.cast_le (K := ℝ) |>.mpr close
      push_cast at cast
      exact cast
    refine ⟨v, value, ?_⟩
    rw [unit', abs_sub_comm]
    linarith

end Candidates

end Calculator.Elementary
