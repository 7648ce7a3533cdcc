import Calculator.Proofs.Binary64.Accuracy
import Calculator.Proofs.Elementary.SeriesBounds

namespace Calculator.Series

open Binary64 (exactValue? rounded Near roundoff)
open scoped Nat

variable {x : Float} {q : ℚ} {r : ℝ} {n : ℕ} {s : PartialSum}

section Run

def exponentialStep (x : Float) (n : ℕ) (s : PartialSum) : PartialSum :=
  ⟨s.term * (x / Float.ofNat n), s.total + s.term * (x / Float.ofNat n)⟩

theorem exponential_eq (x : Float) :
    exponential x = (run termIsSmall (exponentialStep x) maxTerms 1 ⟨1, 1⟩).total := rfl

theorem exists_precision : ∃ p ∈ exactValue? precision, 2 ^ (-57 : ℤ) ≤ p ∧ p < 2 ^ (-56 : ℤ) := by decide +kernel

end Run

section Terms

/-- After the term with the number `n` is added. Each is at most half of the one before. -/
structure ExponentialTerms (r : ℝ) (n : ℕ) (s : PartialSum) : Prop where
  term : Near s.term (r ^ n / n !) (3 / 2 * roundoff)
  small : ∃ p, exactValue? s.term = some p ∧ |p| ≤ 2 ^ (-n : ℤ)
  total : Near s.total (∑ i ∈ Finset.range (n + 1), r ^ i / i !) (7 / 2 * roundoff * n)

theorem exponentialTerms_start (r : ℝ) : ExponentialTerms r 0 ⟨1, 1⟩ where
  term := ⟨1, Binary64.exactValue?_ofNat_one, by simp [Binary64.roundoff_pos.le]⟩
  small := ⟨1, Binary64.exactValue?_ofNat_one, by simp⟩
  total := ⟨1, Binary64.exactValue?_ofNat_one, by simp⟩

variable (known : exactValue? x = some q) (small : |(q : ℝ)| ≤ 9 / 25)

section Bounds

include small

theorem abs_term_le (n : ℕ) : |(q : ℝ) ^ n / n !| ≤ 1 := by
  rw [abs_div, abs_pow, Nat.abs_cast, div_le_one (by positivity)]
  calc |(q : ℝ)| ^ n ≤ 1 := pow_le_one₀ (abs_nonneg _) (by linarith)
    _ ≤ n ! := by exact_mod_cast Nat.succ_le_of_lt n.factorial_pos

theorem abs_quotient_le (n : ℕ) : |(q : ℝ) / (n + 1)| ≤ 9 / 25 := by
  have divisor : (1 : ℝ) ≤ n + 1 := by linarith [Nat.cast_nonneg (α := ℝ) n]
  calc |(q : ℝ) / (n + 1)| = |(q : ℝ)| / (n + 1) := by rw [abs_div, abs_of_pos (one_pos.trans_le divisor)]
    _ ≤ |(q : ℝ)| := div_le_self (abs_nonneg _) divisor
    _ ≤ 9 / 25 := small

theorem abs_next_term_le (n : ℕ) : |(q : ℝ) ^ n / n ! * (q / (n + 1))| ≤ 9 / 25 := by
  rw [abs_mul]
  calc |(q : ℝ) ^ n / n !| * |(q : ℝ) / (n + 1)| ≤ 1 * (9 / 25) :=
        mul_le_mul (abs_term_le small n) (abs_quotient_le small n) (abs_nonneg _) zero_le_one
    _ = 9 / 25 := one_mul _

theorem abs_sum_le (n : ℕ) : |∑ i ∈ Finset.range n, (q : ℝ) ^ i / i !| ≤ 39 / 25 := by
  calc |∑ i ∈ Finset.range n, (q : ℝ) ^ i / i !| ≤ ∑ i ∈ Finset.range n, |(q : ℝ) ^ i / i !| :=
        Finset.abs_sum_le_sum_abs _ _
    _ = ∑ i ∈ Finset.range n, |(q : ℝ)| ^ i / i ! := by
        simp only [abs_div, abs_pow, Nat.abs_cast]
    _ ≤ Real.exp |(q : ℝ)| := Real.sum_le_exp_of_nonneg (abs_nonneg _) n
    _ ≤ Real.exp (9 / 25) := Real.exp_le_exp.mpr small
    _ ≤ 39 / 25 := by
        have bound := Real.exp_bound' (x := 9 / 25) (by norm_num) (by norm_num) (n := 3) (by norm_num)
        refine bound.trans ?_
        norm_num [Finset.sum_range_succ, Nat.factorial]

end Bounds

theorem next_term (r : ℝ) (n : ℕ) : r ^ (n + 1) / (n + 1)! = r ^ n / n ! * (r / (n + 1)) := by
  rw [Nat.factorial_succ]
  push_cast
  field_simp
  ring

theorem exactValue?_count (few : n < 100) : exactValue? (Float.ofNat (n + 1)) = some ((n + 1 : ℕ) : ℚ) :=
  Binary64.toInt?_eq_some_iff.mp (Binary64.toInt?_ofNat (by omega))

section Step

variable (terms : ExponentialTerms q n s) (few : n < 100)
include known small few

theorem near_factor : Near (x / Float.ofNat (n + 1)) (q / (n + 1)) (2 / 5 * roundoff) := by
  have count : (((n + 1 : ℕ) : ℚ) : ℝ) = n + 1 := by push_cast; ring
  have quotient := (Binary64.near_of_exactValue? known).div (M := 2 / 5)
    (Binary64.inRange_of_le (by norm_num) (by norm_num)) (exactValue?_count few) (by positivity)
    (by rw [count, zero_div, add_zero]; linarith [abs_quotient_le small n])
  rw [count, zero_div, zero_add, mul_comm] at quotient
  exact quotient

theorem exists_factor : ∃ f, exactValue? (x / Float.ofNat (n + 1)) = some f ∧ |f| ≤ 2 ^ (-1 : ℤ) := by
  have half : |q / (n + 1 : ℕ)| ≤ 2 ^ (-1 : ℤ) := by
    have bound := abs_quotient_le small n
    rw [← Rat.cast_le (K := ℝ)]
    push_cast
    norm_num
    linarith
  refine ⟨rounded (q / (n + 1 : ℕ)), ?_, Binary64.abs_rounded_le (by norm_num) half⟩
  rw [Binary64.exactValue?_div known (exactValue?_count few) (by positivity),
    Binary64.nearestReal?_of_abs_le half (by norm_num) (by norm_num)]

include terms

theorem near_next_exponential_term : Near (s.term * (x / Float.ofNat (n + 1))) ((q : ℝ) ^ (n + 1) / (n + 1)!) (3 / 2 * roundoff) := by
  have error := Binary64.roundoff_pos
  have tiny := Binary64.roundoff_lt
  have term := abs_term_le small n
  have quotient := abs_quotient_le small n
  rw [next_term]
  refine (terms.term.mul (near_factor known small few) (Binary64.inRange_of_le (by norm_num) (by norm_num))
    (κ := 19 / 20 * roundoff) (M := 2 / 5) ?_ ?_).mono ?_
  · nlinarith
  · linarith [abs_next_term_le small n]
  · linarith

theorem exponentialTerms_next : ExponentialTerms q (n + 1) (exponentialStep x (n + 1) s) where
  term := near_next_exponential_term known small terms few
  small := by
    obtain ⟨p, value, bound⟩ := terms.small
    obtain ⟨f, factor, half⟩ := exists_factor known small few
    have product : |p * f| ≤ 2 ^ (-(n + 1 : ℕ) : ℤ) := by
      rw [abs_mul, show (-(n + 1 : ℕ) : ℤ) = -n + -1 by omega, zpow_add₀ two_ne_zero]
      gcongr
    refine ⟨rounded (p * f), ?_, Binary64.abs_rounded_le (by omega) product⟩
    rw [exponentialStep, Binary64.exactValue?_mul value factor,
      Binary64.nearestReal?_of_abs_le product (by omega) (by omega)]
  total := by
    have error := Binary64.roundoff_pos
    have tiny := Binary64.roundoff_lt
    have count : (n : ℝ) ≤ 100 := by exact_mod_cast few.le
    have sum := abs_sum_le small (n + 1 + 1)
    rw [Finset.sum_range_succ] at sum ⊢
    refine (terms.total.add (near_next_exponential_term known small terms few) (M := 8 / 5)
      (Binary64.inRange_of_le (by norm_num) (by norm_num)) ?_).mono ?_
    · nlinarith
    · push_cast
      linarith

end Step

end Terms

section Result

theorem termIsSmall_of_many (n : ℕ) {r : ℝ} (terms : ExponentialTerms r 57 s) : termIsSmall n s = true := by
  obtain ⟨p, value, bound⟩ := terms.small
  obtain ⟨least, exact, lower, -⟩ := exists_precision
  rw [termIsSmall, decide_eq_true_iff, Binary64.le_iff_value_le (Binary64.exactValue?_abs value) exact]
  exact bound.trans lower

theorem abs_term_le_of_small {m : ℕ} {r : ℝ} (terms : ExponentialTerms r n s) (settled : termIsSmall m s = true) :
    |r ^ n / n !| ≤ 13 / 8 * roundoff := by
  obtain ⟨p, value, close⟩ := terms.term
  obtain ⟨greatest, exact, -, upper⟩ := exists_precision
  rw [termIsSmall, decide_eq_true_iff, Binary64.le_iff_value_le (Binary64.exactValue?_abs value) exact] at settled
  have bound : ((|p| : ℚ) : ℝ) ≤ ((2 ^ (-56 : ℤ) : ℚ) : ℝ) := Rat.cast_le.mpr (settled.trans upper.le)
  rw [Rat.cast_abs, Rat.cast_zpow, Rat.cast_ofNat] at bound
  have eighth : |(p : ℝ)| ≤ 1 / 8 * roundoff := by
    refine bound.trans_eq ?_
    unfold roundoff
    norm_num
  have apart := abs_sub_abs_le_abs_sub (r ^ n / n !) (p : ℝ)
  rw [abs_sub_comm] at apart
  linarith

variable (known : exactValue? x = some q) (small : |(q : ℝ)| ≤ 9 / 25)
include known small

omit known in
theorem near_exp_of_small {m : ℕ} (terms : ExponentialTerms q n s) (settled : termIsSmall m s = true) (few : n ≤ 57) :
    Near s.total (Real.exp q) (201 * roundoff) := by
  have error := Binary64.roundoff_pos
  have last := abs_term_le_of_small terms settled
  have count : (n : ℝ) ≤ 57 := by exact_mod_cast few
  have tail := Real.exp_bound (by linarith : |(q : ℝ)| ≤ 1) (Nat.succ_pos n)
  have rest : |(q : ℝ)| ^ (n + 1) * ((n + 1).succ / ((n + 1)! * (n + 1 : ℕ))) ≤ 3 / 2 * roundoff := by
    have split : |(q : ℝ)| ^ (n + 1) * ((n + 1).succ / ((n + 1)! * (n + 1 : ℕ))) =
        |(q : ℝ) ^ n / n !| * |(q : ℝ) / (n + 1)| * ((n + 2) / (n + 1)) := by
      rw [abs_div, abs_div, abs_pow, Nat.abs_cast, Nat.factorial_succ, abs_of_pos (by positivity : (0 : ℝ) < n + 1)]
      push_cast
      field_simp
      ring
    have twice : ((n : ℝ) + 2) / (n + 1) ≤ 2 := by
      rw [div_le_iff₀ (by positivity)]
      linarith [Nat.cast_nonneg (α := ℝ) n]
    rw [split]
    calc |(q : ℝ) ^ n / n !| * |(q : ℝ) / (n + 1)| * ((n + 2) / (n + 1)) ≤ 13 / 8 * roundoff * (9 / 25) * 2 := by
          have quotient := abs_quotient_le small n
          gcongr
      _ ≤ 3 / 2 * roundoff := by linarith
  rw [abs_sub_comm] at tail
  exact (terms.total.trans (tail.trans rest)).mono (by nlinarith)

theorem near_exponential : Near (exponential x) (Real.exp q) (201 * roundoff) := by
  obtain ⟨m, few, ⟨begun, terms⟩, settled⟩ := run_settles (fun n s => 1 ≤ n ∧ ExponentialTerms q (n - 1) s) maxTerms
    (by
      rintro n s before ⟨begun, terms⟩
      obtain ⟨k, rfl⟩ := Nat.exists_eq_add_of_le' begun
      exact ⟨Nat.le_add_left 1 _, exponentialTerms_next known small terms (by omega)⟩)
    (fun s holds => termIsSmall_of_many 58 holds.2) (by decide : 1 ≤ 58) (by decide)
    ⟨le_rfl, exponentialTerms_start q⟩
  rw [exponential_eq]
  exact near_exp_of_small small terms settled (by omega)

end Result

end Calculator.Series
