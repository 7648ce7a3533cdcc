import Calculator.Proofs.Binary64.Scaling
import Calculator.Proofs.Elementary.Exponential

namespace Calculator.Elementary

open Binary64 (exactValue? rounded)

/-- A loop of `n` passes. The guard holds before each of them, and no longer after the last. -/
inductive Loops (guard : Float → Prop) (pass : Float → Float) : (n : ℕ) → Float → Float → Prop
  | finish {x} : ¬ guard x → Loops guard pass 0 x x
  | again {n x y} : guard x → Loops guard pass n (pass x) y → Loops guard pass (n + 1) x y

/-- How a logarithm comes about: the calls that are made for it, one within the other, the passes of the loops that
double and halve, and the outcome. -/
inductive LnRun : (calls doublings halvings : ℕ) → Float → Except DomainError Float → Prop
  | notFinite {a} : (a.isNaN || a.isInf) = true → LnRun 1 0 0 a (.error .overflow)
  | notPositive {a} : a.isFinite = true → a ≤ 0 → LnRun 1 0 0 a (.error .nonPositiveLogarithm)
  | one : LnRun 1 0 0 1 (.ok 0)
  | subnormal {a s calls m n halvings outcome} : 0 < a → a < leastNormal →
      Loops (· < leastNormal) (· * 2) m a s → LnRun calls n halvings s outcome →
      LnRun (calls + 1) (m + n) halvings a (outcome.map (· - Float.ofNat m * lnTwo))
  | belowOne {a calls doublings halvings outcome} : leastNormal ≤ a → a < 1 →
      LnRun calls doublings halvings (1 / a) outcome →
      LnRun (calls + 1) doublings halvings a (outcome.map (-·))
  | aboveOne {a s n} : a.isFinite = true → 1 < a → Loops (· ≥ 2) (· / 2) n a s →
      LnRun 1 0 n a (.ok (Float.ofNat n * lnTwo + Series.logarithm s))

variable {a x y : Float} {q : ℚ} {n budget : ℕ}

section Loops

def scaleWhile (guard : Float → Prop) [DecidablePred guard] (pass : Float → Float) : (budget : ℕ) → Scaled → Scaled
  | 0, s => s
  | budget + 1, s => if guard s.value then scaleWhile guard pass budget ⟨pass s.value, s.steps + 1⟩ else s

theorem doubleToNormal_eq (budget : ℕ) (s : Scaled) :
    doubleToNormal budget s = scaleWhile (· < leastNormal) (· * 2) budget s := by
  induction budget generalizing s with
  | zero => rfl
  | succ budget ih => rw [doubleToNormal, scaleWhile, ih]

theorem halveBelowTwo_eq (budget : ℕ) (s : Scaled) :
    halveBelowTwo budget s = scaleWhile (· ≥ 2) (· / 2) budget s := by
  induction budget generalizing s with
  | zero => rfl
  | succ budget ih => rw [halveBelowTwo, scaleWhile, ih]

/-- A budget that is large enough makes no difference. -/
theorem Loops.scaleWhile_eq {guard : Float → Prop} [DecidablePred guard] {pass : Float → Float}
    (loops : Loops guard pass n x y) (enough : n ≤ budget) (steps : ℕ) :
    scaleWhile guard pass budget ⟨x, steps⟩ = ⟨y, steps + n⟩ := by
  induction loops generalizing budget steps with
  | finish stop =>
    cases budget with
    | zero => rfl
    | succ budget => exact if_neg stop
  | @again n x y go _ ih =>
    obtain ⟨rest, rfl⟩ := Nat.exists_eq_add_of_le' enough
    rw [← Nat.add_assoc, scaleWhile, if_pos go, ih (Nat.le_add_left n rest), Nat.add_assoc, Nat.add_comm 1]

end Loops

section Scaling

theorem exactValue?_leastNormal : exactValue? leastNormal = some (2 ^ (-1022 : ℤ)) := by decide +kernel

variable (known : exactValue? x = some q)
include known

theorem lt_leastNormal_iff : x < leastNormal ↔ q < 2 ^ (-1022 : ℤ) :=
  Binary64.lt_iff_value_lt known exactValue?_leastNormal

theorem two_le_iff : x ≥ 2 ↔ 2 ≤ q := Binary64.le_iff_value_le Binary64.exactValue?_two known

theorem exists_loops_double {d : ℕ} (normal : 2 ^ (-1022 : ℤ) ≤ q * 2 ^ d) (small : q < 2 ^ (-1021 : ℤ)) :
    ∃ n ≤ d, ∃ y, Loops (· < leastNormal) (· * 2) n x y ∧ exactValue? y = some (q * 2 ^ n) ∧
      2 ^ (-1022 : ℤ) ≤ q * 2 ^ n ∧ q * 2 ^ n < 2 ^ (-1021 : ℤ) := by
  induction d generalizing x q with
  | zero =>
    refine ⟨0, le_rfl, x, .finish ?_, ?_, normal, ?_⟩
    · rw [pow_zero, mul_one] at normal
      exact (lt_leastNormal_iff known).not.mpr normal.not_gt
    · rwa [pow_zero, mul_one]
    · rwa [pow_zero, mul_one]
  | succ d ih =>
    by_cases subnormal : q < 2 ^ (-1022 : ℤ)
    · have positive : 0 < q := pos_of_mul_pos_left ((Binary64.unit_pos _).trans_le normal) (by positivity)
      have twice : q * 2 < 2 ^ (-1021 : ℤ) := by
        rw [show (-1021 : ℤ) = -1022 + 1 from rfl, zpow_add_one₀ two_ne_zero]
        exact mul_lt_mul_of_pos_right subnormal two_pos
      have doubled : exactValue? (x * 2) = some (q * 2) := by
        apply Binary64.exactValue?_double known
        rw [abs_of_pos (by positivity), ← zpow_natCast]
        exact twice.trans (zpow_lt_zpow_right₀ one_lt_two (by decide))
      obtain ⟨n, ordered, y, loops, value, lower, upper⟩ := ih doubled (by rwa [mul_assoc, ← pow_succ']) twice
      rw [mul_assoc, ← pow_succ'] at value lower upper
      exact ⟨n + 1, by omega, y, .again ((lt_leastNormal_iff known).mpr subnormal) loops, value, lower, upper⟩
    · refine ⟨0, Nat.zero_le _, x, .finish ((lt_leastNormal_iff known).not.mpr subnormal), ?_, ?_, ?_⟩
      · rwa [pow_zero, mul_one]
      · rw [pow_zero, mul_one]
        exact not_lt.mp subnormal
      · rwa [pow_zero, mul_one]

theorem exists_loops_halve {h : ℕ} (least : 1 ≤ q) (small : q < 2 ^ (h + 1)) :
    ∃ n ≤ h, ∃ y, Loops (· ≥ 2) (· / 2) n x y ∧ exactValue? y = some (q / 2 ^ n) ∧
      1 ≤ q / 2 ^ n ∧ q / 2 ^ n < 2 := by
  induction h generalizing x q with
  | zero =>
    rw [zero_add, pow_one] at small
    refine ⟨0, le_rfl, x, .finish ((two_le_iff known).not.mpr small.not_ge), ?_, ?_, ?_⟩ <;> rwa [pow_zero, div_one]
  | succ h ih =>
    by_cases great : 2 ≤ q
    · have half : 1 ≤ q / 2 := by rwa [le_div_iff₀ two_pos, one_mul]
      have halved : exactValue? (x / 2) = some (q / 2) := by
        apply Binary64.exactValue?_half known
        rw [abs_of_pos (by positivity)]
        exact (zpow_le_one_of_nonpos₀ one_le_two (by decide)).trans half
      have smaller : q / 2 < 2 ^ (h + 1) := by
        rw [div_lt_iff₀ two_pos, ← pow_succ]
        exact small
      obtain ⟨n, ordered, y, loops, value, lower, upper⟩ := ih halved half smaller
      rw [div_div, ← pow_succ'] at value lower upper
      exact ⟨n + 1, by omega, y, .again ((two_le_iff known).mpr great) loops, value, lower, upper⟩
    · refine ⟨0, Nat.zero_le _, x, .finish ((two_le_iff known).not.mpr great), ?_, ?_, ?_⟩
      · rwa [pow_zero, div_one]
      · rwa [pow_zero, div_one]
      · rw [pow_zero, div_one]
        exact not_le.mp great

end Scaling

section Runs

theorem lnFromOne_of_loops (loops : Loops (· ≥ 2) (· / 2) n x y) (enough : n ≤ maxScalings) :
    lnFromOne x = Float.ofNat n * lnTwo + Series.logarithm y := by
  rw [lnFromOne, halveBelowTwo_eq, loops.scaleWhile_eq enough, Nat.zero_add]

theorem lnPositive_of_loops (loops : Loops (· < leastNormal) (· * 2) n x y) (enough : n ≤ maxScalings)
    (subnormal : x < leastNormal) : lnPositive x = lnNormal y - Float.ofNat n * lnTwo := by
  rw [lnPositive, if_pos subnormal, doubleToNormal_eq, loops.scaleWhile_eq enough, Nat.zero_add]

theorem lnFromOne_one : lnFromOne 1 = 0 := by decide +kernel

variable (known : exactValue? x = some q)
include known

theorem isFinite_of_value : x.isFinite = true := Binary64.isFinite_iff_exactValue?.mpr ⟨q, known⟩

theorem exists_run_fromOne (least : 1 ≤ q) : ∃ n ≤ 1023, LnRun 1 0 n x (.ok (lnFromOne x)) := by
  rcases least.eq_or_lt with rfl | above
  · obtain rfl := (Binary64.eq_or_zero_of_exactValue? known Binary64.exactValue?_ofNat_one).resolve_right one_ne_zero
    rw [lnFromOne_one]
    exact ⟨0, Nat.zero_le _, .one⟩
  · have small := (Binary64.representable_iff.mp (Binary64.representable_of_exactValue? known)).1
    rw [abs_of_pos (zero_lt_one.trans above)] at small
    obtain ⟨n, ordered, y, loops, -⟩ := exists_loops_halve (h := 1023) known least small
    have greater : 1 < x := (Binary64.lt_iff_value_lt Binary64.exactValue?_ofNat_one known).mpr above
    rw [lnFromOne_of_loops loops (by unfold maxScalings; omega)]
    exact ⟨n, ordered, .aboveOne (isFinite_of_value known) greater loops⟩

theorem exists_reciprocal (normal : 2 ^ (-1022 : ℤ) ≤ q) (below : q < 1) :
    exactValue? (1 / x) = some (rounded (1 / q)) ∧ 1 ≤ rounded (1 / q) := by
  have positive : 0 < q := (Binary64.unit_pos _).trans_le normal
  have least : 1 ≤ 1 / q := (one_le_div positive).mpr below.le
  have small : |1 / q| ≤ 2 ^ (1022 : ℤ) := by
    rw [abs_of_pos (by positivity), div_le_iff₀ positive]
    calc (1 : ℚ) = 2 ^ (1022 : ℤ) * 2 ^ (-1022 : ℤ) := by rw [← zpow_add₀ two_ne_zero]; rfl
      _ ≤ 2 ^ (1022 : ℤ) * q := mul_le_mul_of_nonneg_left normal (Binary64.unit_pos _).le
  constructor
  · rw [Binary64.exactValue?_div Binary64.exactValue?_ofNat_one known positive.ne',
      Binary64.nearestReal?_of_abs_le small (by decide) (by decide)]
  · have one := Binary64.rounded_mono least
    rwa [Binary64.representable_one.rounded_eq] at one

theorem exists_run_normal (normal : 2 ^ (-1022 : ℤ) ≤ q) :
    ∃ calls ≤ 2, ∃ n ≤ 1023, LnRun calls 0 n x (.ok (lnNormal x)) := by
  have compared : x < 1 ↔ q < 1 := Binary64.lt_iff_value_lt known Binary64.exactValue?_ofNat_one
  unfold lnNormal
  by_cases below : q < 1
  · obtain ⟨value, least⟩ := exists_reciprocal known normal below
    obtain ⟨n, ordered, run⟩ := exists_run_fromOne value least
    have above : leastNormal ≤ x := (Binary64.le_iff_value_le exactValue?_leastNormal known).mpr normal
    rw [if_pos (compared.mpr below)]
    exact ⟨2, le_rfl, n, ordered, run.belowOne above (compared.mpr below)⟩
  · obtain ⟨n, ordered, run⟩ := exists_run_fromOne known (not_lt.mp below)
    rw [if_neg (compared.not.mpr below)]
    exact ⟨1, by decide, n, ordered, run⟩

theorem exists_run_positive (positive : 0 < q) :
    ∃ calls ≤ 3, ∃ m ≤ 52, ∃ n ≤ 1023, LnRun calls m n x (.ok (lnPositive x)) := by
  by_cases subnormal : q < 2 ^ (-1022 : ℤ)
  · have least := (Binary64.representable_of_exactValue? known).twoPow_le positive
    have normal : 2 ^ (-1022 : ℤ) ≤ q * 2 ^ 52 := by
      calc (2 : ℚ) ^ (-1022 : ℤ) = 2 ^ (-1074 : ℤ) * 2 ^ (52 : ℤ) := by rw [← zpow_add₀ two_ne_zero]; rfl
        _ ≤ q * 2 ^ (52 : ℤ) := mul_le_mul_of_nonneg_right least (Binary64.unit_pos _).le
    have small : q < 2 ^ (-1021 : ℤ) := subnormal.trans (zpow_lt_zpow_right₀ one_lt_two (by decide))
    obtain ⟨m, passes, y, loops, value, lower, -⟩ := exists_loops_double known normal small
    obtain ⟨calls, nested, n, ordered, run⟩ := exists_run_normal value lower
    have below := (lt_leastNormal_iff known).mpr subnormal
    rw [lnPositive_of_loops loops (by unfold maxScalings; omega) below]
    exact ⟨calls + 1, by omega, m, passes, n, ordered,
      run.subnormal ((Binary64.zero_lt_iff known).mpr positive) below loops⟩
  · obtain ⟨calls, nested, n, ordered, run⟩ := exists_run_normal known (not_lt.mp subnormal)
    rw [lnPositive, if_neg ((lt_leastNormal_iff known).not.mpr subnormal)]
    exact ⟨calls, by omega, 0, by decide, n, ordered, run⟩

end Runs

theorem isFinite_of_number (number : ¬ (a.isNaN || a.isInf) = true) : a.isFinite = true := by
  change ¬ (a.toModel.unpack.isNaN || a.toModel.unpack.isInf) = true at number
  change a.toModel.unpack.isFinite = true
  cases unpacked : a.toModel.unpack with
  | notANumber => rw [unpacked] at number; exact absurd rfl number
  | infinity sign => rw [unpacked] at number; exact absurd rfl number
  | _ => rfl

theorem isFinite_of_special (special : (a.isNaN || a.isInf) = true) : a.isFinite = false := by
  rw [← Bool.not_eq_true, Binary64.isFinite_iff_exactValue?]
  rintro ⟨q, known⟩
  exact not_isNaN_or_isInf known special

theorem ln_cases (a : Float) :
    (a.isNaN || a.isInf) = true ∧ a.isFinite = false ∧ ln a = .error .overflow ∨
      (a.isNaN || a.isInf) = false ∧ a.isFinite = true ∧
        (a ≤ 0 ∧ ¬ 0 < a ∧ ln a = .error .nonPositiveLogarithm ∨
          ¬ a ≤ 0 ∧ 0 < a ∧ ln a = .ok (lnPositive a)) := by
  by_cases special : (a.isNaN || a.isInf) = true
  · exact .inl ⟨special, isFinite_of_special special, if_pos special⟩
  · have finite := isFinite_of_number special
    obtain ⟨q, known⟩ := Binary64.isFinite_iff_exactValue?.mp finite
    have below : a ≤ 0 ↔ q ≤ 0 := Binary64.le_iff_value_le known Binary64.exactValue?_ofNat_zero
    refine .inr ⟨Bool.eq_false_iff.mpr special, finite, ?_⟩
    by_cases nonPositive : q ≤ 0
    · have outcome : ln a = .error .nonPositiveLogarithm := by
        rw [ln, if_neg special, if_pos (below.mpr nonPositive)]
      exact .inl ⟨below.mpr nonPositive, (Binary64.zero_lt_iff known).not.mpr nonPositive.not_gt, outcome⟩
    · have positive := not_le.mp nonPositive
      exact .inr ⟨below.not.mpr nonPositive, (Binary64.zero_lt_iff known).mpr positive, ln_of_pos known positive⟩

theorem exists_run (a : Float) :
    ∃ calls ≤ 3, ∃ doublings ≤ 52, ∃ halvings ≤ 1023, LnRun calls doublings halvings a (ln a) := by
  rcases ln_cases a with ⟨special, -, failed⟩ | ⟨-, finite, ⟨below, -, failed⟩ | ⟨-, above, result⟩⟩
  · rw [failed]
    exact ⟨1, by decide, 0, by decide, 0, by decide, .notFinite special⟩
  · rw [failed]
    exact ⟨1, by decide, 0, by decide, 0, by decide, .notPositive finite below⟩
  · obtain ⟨q, known⟩ := Binary64.isFinite_iff_exactValue?.mp finite
    rw [result]
    exact exists_run_positive known ((Binary64.zero_lt_iff known).mp above)

/-- A logarithm takes three calls, 52 doublings and 1023 halvings at most. It is refused for what is no number or
infinite and for what is not positive, and for nothing else. -/
theorem ln_finishes_and_rejects_exactly (a : Float) :
    (∃ calls ≤ 3, ∃ doublings ≤ 52, ∃ halvings ≤ 1023, LnRun calls doublings halvings a (ln a)) ∧
      (ln a = .error .overflow ↔ (a.isNaN || a.isInf) = true) ∧
      (ln a = .error .nonPositiveLogarithm ↔ a.isFinite = true ∧ a ≤ 0) ∧
      ((∃ z, ln a = .ok z) ↔ a.isFinite = true ∧ 0 < a) := by
  refine ⟨exists_run a, ?_⟩
  rcases ln_cases a with
    ⟨special, infinite, failed⟩ | ⟨number, finite, ⟨below, notAbove, failed⟩ | ⟨notBelow, above, result⟩⟩
  · rw [special, infinite, failed]
    simp
  · rw [number, finite, failed]
    simp [below, notAbove]
  · rw [number, finite, result]
    simp [notBelow, above]

end Calculator.Elementary
