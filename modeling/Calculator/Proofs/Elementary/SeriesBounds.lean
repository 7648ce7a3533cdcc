import Calculator.Elementary.Series
import Calculator.Proofs.Binary64.Intervals

namespace Calculator.Series

open Binary64 (Between toInt?)

variable {advance : ℕ → PartialSum → PartialSum} {x d : Float}

section Run

variable {holds : ℕ → PartialSum → Prop} {bound : ℕ}

/-- What each step passes on to the next term holds where a run ends. -/
theorem run_induction (settled : ℕ → PartialSum → Bool)
    (step : ∀ n s, n < bound → holds n s → holds (n + 1) (advance n s)) {budget n : ℕ} {s : PartialSum}
    (inside : n + budget ≤ bound) (start : holds n s) : ∃ m ≤ bound, holds m (run settled advance budget n s) := by
  induction budget generalizing n s with
  | zero => exact ⟨n, inside, start⟩
  | succ budget ih =>
    unfold run
    split
    · exact ⟨n, by omega, start⟩
    · exact ih (by omega) (step n s (by omega) start)

/-- A run that is sure to be settled at the last term ends where it is settled, given that the budget lasts. -/
theorem run_settles (holds : ℕ → PartialSum → Prop) {settled : ℕ → PartialSum → Bool} (budget : ℕ)
    (step : ∀ n s, n < bound → holds n s → holds (n + 1) (advance n s))
    (ends : ∀ s, holds bound s → settled bound s = true) {n : ℕ} {s : PartialSum} (inside : n ≤ bound)
    (enough : bound ≤ n + budget) (start : holds n s) :
    ∃ m ≤ bound, holds m (run settled advance budget n s) ∧ settled m (run settled advance budget n s) = true := by
  induction budget generalizing n s with
  | zero =>
    obtain rfl : n = bound := by omega
    exact ⟨n, le_rfl, start, ends s start⟩
  | succ budget ih =>
    unfold run
    split
    · rename_i finished
      exact ⟨n, inside, start, finished⟩
    · rename_i unfinished
      have before : n ≠ bound := by
        rintro rfl
        exact unfinished (ends s start)
      exact ih (by omega) (by omega) (step n s (by omega) start)

end Run

structure Bounded (n : ℕ) (s : PartialSum) : Prop where
  positive : 0 < n
  term : Between (-1) 1 s.term
  total : Between (-n) n s.total

def Moderate (x : Float) : Prop := Between (-(maxTerms + 1)) (maxTerms + 1) x

theorem moderate_sum {start : PartialSum} (step : ∀ n s, n < maxTerms + 1 → Bounded n s → Bounded (n + 1) (advance n s))
    (initial : Bounded 1 start) : Moderate (sum advance start) := by
  obtain ⟨m, inside, -, -, total⟩ :=
    run_induction termIsSmall step (Nat.add_comm 1 maxTerms).le initial
  exact total.mono (by omega) (by omega)

theorem between_factor {k : ℤ} (small : Between (-1) 1 x) (divisor : toInt? d = some k) (positive : 0 < k) :
    Between (-1) 1 (-x * x / d) := by
  have square := Binary64.Between.mul small.neg small (by decide)
  exact Binary64.Between.div (square.mono (by omega) (by omega)) divisor positive (by decide)

theorem between_next {s : PartialSum} {n : ℕ} {k : ℤ} (small : Between (-1) 1 x) (bounded : Bounded n s)
    (divisor : toInt? d = some k) (positive : 0 < k) : Between (-1) 1 (s.term * (-x * x / d)) :=
  bounded.term.mul (between_factor small divisor positive) (by decide)

theorem between_total {s : PartialSum} {t : Float} {n : ℕ} (inside : n < maxTerms + 1) (bounded : Bounded n s)
    (term : Between (-1) 1 t) : Between (-(n + 1 : ℕ)) (n + 1 : ℕ) (s.total + t) := by
  unfold maxTerms at inside
  have sum := bounded.total.add term (by rw [abs_of_nonpos] <;> omega) (by rw [abs_of_nonneg] <;> omega)
  exact sum.mono (by omega) (by omega)

section Divisors

variable {n : ℕ} (inside : n < maxTerms + 1)
include inside

theorem toInt?_double : toInt? (2 * Float.ofNat n) = some (2 * n : ℤ) := by
  unfold maxTerms at inside
  refine Binary64.toInt?_mul (by rfl) (Binary64.toInt?_ofNat (by omega)) ?_
  rw [abs_of_nonneg] <;> omega

theorem exists_divisor {y z : Float} {i j : ℤ} (first : toInt? y = some i) (second : toInt? z = some j)
    (positive : 0 < i ∧ 0 < j) (near : i ≤ 2 * n + 1 ∧ j ≤ 2 * n + 1) : ∃ k, toInt? (y * z) = some k ∧ 0 < k := by
  unfold maxTerms at inside
  have product : 0 < i * j := mul_pos positive.1 positive.2
  refine ⟨i * j, Binary64.toInt?_mul first second ?_, product⟩
  rw [abs_of_pos product]
  calc i * j ≤ 20001 * 20001 := mul_le_mul (by omega) (by omega) positive.2.le (by decide)
    _ ≤ 2 ^ 53 := by decide

end Divisors

theorem moderate_sine (small : Between (-1) 1 x) : Moderate (sine x) := by
  apply moderate_sum
  · intro n s inside bounded
    have positive := bounded.positive
    have even := toInt?_double inside
    have odd : toInt? (2 * Float.ofNat n + 1) = some (2 * n + 1 : ℤ) := by
      unfold maxTerms at inside
      refine Binary64.toInt?_add even (by rfl) ?_
      rw [abs_of_nonneg] <;> omega
    obtain ⟨k, divisor, above⟩ := exists_divisor inside even odd (by omega) (by omega)
    exact ⟨Nat.succ_pos n, between_next small bounded divisor above, between_total inside bounded bounded.term⟩
  · exact ⟨one_pos, small, (Binary64.between_of_toInt? (by rfl : toInt? 0 = some 0)).mono (by decide) (by decide)⟩

theorem moderate_cosine (small : Between (-1) 1 x) : Moderate (cosine x) := by
  have one : Between (-1) 1 1 := (Binary64.between_of_toInt? (by rfl : toInt? 1 = some 1)).mono (by decide) (by decide)
  apply moderate_sum
  · intro n s inside bounded
    have positive := bounded.positive
    have even := toInt?_double inside
    have odd : toInt? (2 * Float.ofNat n - 1) = some (2 * n - 1 : ℤ) := by
      unfold maxTerms at inside
      refine Binary64.toInt?_sub even (by rfl) ?_
      rw [abs_of_nonneg] <;> omega
    obtain ⟨k, divisor, above⟩ := exists_divisor inside odd even (by omega) (by omega)
    have next := between_next small bounded divisor above
    exact ⟨Nat.succ_pos n, next, between_total inside bounded next⟩
  · exact ⟨one_pos, one, one⟩

end Calculator.Series
