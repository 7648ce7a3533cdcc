import Calculator.Proofs.Sample.EqualVariance

namespace Calculator.Sample

open Binary64 (exactValue?)

variable {values : List Float} {x : Float} {p q : ℚ} {n : ℕ}

section Deviations

variable (several : 2 ≤ values.length) (known : exactValue? (variance values) = some p)
include several known

theorem standardDeviation_of_small (small : p < 1 / 10 ^ 10) : standardDeviation values = .ok 0 := by
  rw [standardDeviation_eq several, atLeastZero]
  split
  · rename_i positive
    exact Elementary.sqrt_of_small known ((Binary64.zero_lt_iff known).mp positive) small
  · exact sqrt_zero

theorem exists_standardDeviation_le (large : 1 / 10 ^ 10 ≤ p) : ∃ d r, standardDeviation values = .ok d ∧
    exactValue? d = some r ∧ 0 ≤ r ∧ r ^ 2 ≤ 101 / 100 * p := by
  have positive : 0 < p := lt_of_lt_of_le (by norm_num) large
  rw [standardDeviation_eq several, atLeastZero, if_pos ((Binary64.zero_lt_iff known).mpr positive)]
  exact Elementary.exists_sqrt_le known positive large

end Deviations

def WithoutNoise (n : ℕ) (q : ℚ) : Prop :=
  n = 2 ∨ n * q ^ 2 ≤ 10 ^ 5 ∨ ∃ m e : ℤ, q = m * 2 ^ e ∧ n * m ^ 2 ≤ 2 ^ 53

section EqualSamples

variable (known : exactValue? x = some q) (several : 2 ≤ n)
include known several

theorem variance_bound (bounded : |q| ≤ 2 ^ (340 : ℤ)) (finite : (squaredMean (List.replicate n x)).isFinite = true) :
    ∃ p, exactValue? (variance (List.replicate n x)) = some p ∧
      (p < 1 / 10 ^ 10 ∨ p ≤ 92 / 10 ^ 17 * (n * q ^ 2) ∧ ¬ WithoutNoise n q) := by
  rcases lt_or_ge |q| (2 ^ (-400 : ℤ)) with tiny | normal
  · obtain ⟨p, value, small⟩ := variance_of_tiny known bounded several finite tiny
    exact ⟨p, value, .inl small⟩
  by_cases quiet : n = 2 ∨ ∃ m e : ℤ, q = m * 2 ^ e ∧ n * m ^ 2 ≤ 2 ^ 53
  · refine ⟨0, ?_, .inl (by norm_num)⟩
    rcases quiet with rfl | ⟨m, e, rfl, short⟩
    · exact variance_of_pair known bounded normal
    · exact variance_of_short known bounded normal several short
  · obtain ⟨p, value, bound⟩ : ∃ p, exactValue? (variance (List.replicate n x)) = some p ∧
        p ≤ 92 / 10 ^ 17 * (n * q ^ 2) := by
      rcases le_or_gt n (2 ^ 52) with few | many
      · exact variance_of_few known bounded normal (by omega) few
      · exact variance_of_many known bounded normal finite many
    refine ⟨p, value, ?_⟩
    by_cases small : n * q ^ 2 ≤ 10 ^ 5
    · exact .inl (by linarith)
    · refine .inr ⟨bound, ?_⟩
      rintro (pair | quiet' | short)
      · exact quiet (.inl pair)
      · exact small quiet'
      · exact quiet (.inr short)

/-- The deviation of equal samples grows no faster than the root of their count, with a factor that is noise. -/
theorem standardDeviation_replicate (bounded : |q| ≤ 10 ^ 100) :
    ∃ d r, standardDeviation (List.replicate n x) = .ok d ∧ exactValue? d = some r ∧ 0 ≤ r ∧
      r ^ 2 ≤ n * q ^ 2 / 10 ^ 15 ∧ (WithoutNoise n q → d = 0) := by
  have length : (List.replicate n x).length = n := List.length_replicate
  have several' : 2 ≤ (List.replicate n x).length := by omega
  have power : (10 : ℚ) ^ 100 ≤ 2 ^ (340 : ℤ) := by
    calc (10 : ℚ) ^ 100 = (10 ^ 10) ^ 10 := by rw [← pow_mul]
      _ ≤ (2 ^ 34) ^ 10 := pow_le_pow_left₀ (by norm_num) (by norm_num) 10
      _ = 2 ^ 340 := by rw [← pow_mul]
      _ = 2 ^ (340 : ℤ) := (zpow_natCast 2 340).symm
  have none (zero : standardDeviation (List.replicate n x) = .ok 0) :
      ∃ d r, standardDeviation (List.replicate n x) = .ok d ∧ exactValue? d = some r ∧ 0 ≤ r ∧
        r ^ 2 ≤ n * q ^ 2 / 10 ^ 15 ∧ (WithoutNoise n q → d = 0) :=
    ⟨0, 0, zero, Binary64.exactValue?_ofNat_zero, le_rfl, by positivity, fun _ => rfl⟩
  by_cases finite : (squaredMean (List.replicate n x)).isFinite = true
  · obtain ⟨p, value, bound⟩ := variance_bound known several (bounded.trans power) finite
    rcases lt_or_ge p (1 / 10 ^ 10) with small | large
    · exact none (standardDeviation_of_small several' value small)
    · obtain ⟨most, noisy⟩ := bound.resolve_left large.not_gt
      obtain ⟨d, r, result, root, nonnegative, square⟩ := exists_standardDeviation_le several' value large
      exact ⟨d, r, result, root, nonnegative, by linarith, fun quiet => absurd quiet noisy⟩
  · exact none (standardDeviation_of_squaredMean_not_finite several' finite)

end EqualSamples

theorem standardDeviation_replicate_three : exactValue? 3 = some 3 ∧ 2 ≤ 3 ∧ |(3 : ℚ)| ≤ 10 ^ 100 ∧
    ∃ d r, standardDeviation (List.replicate 3 3) = .ok d ∧ exactValue? d = some r ∧ 0 ≤ r ∧
      r ^ 2 ≤ (3 : ℕ) * 3 ^ 2 / 10 ^ 15 ∧ (WithoutNoise 3 3 → d = 0) := by
  have known : exactValue? 3 = some 3 := by decide +kernel
  have bounded : |(3 : ℚ)| ≤ 10 ^ 100 := by norm_num
  exact ⟨known, by decide, bounded, standardDeviation_replicate known (by decide) bounded⟩

/-- The sum of three of them is rounded, and the noise is beyond the tolerance of the root. -/
theorem standardDeviation_of_equal_samples_not_zero :
    (∃ q ∈ exactValue? 422.5265952683534, |q| ≤ 10 ^ 100) ∧
      standardDeviation (List.replicate 3 422.5265952683534) = .ok 1.07896e-05 ∧ exactValue? 1.07896e-05 ≠ some 0 :=
  ⟨by decide +kernel, Elementary.eq_ok_of_toOption (by decide +kernel), by decide +kernel⟩

end Calculator.Sample
