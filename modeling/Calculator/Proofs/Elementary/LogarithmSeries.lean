import Calculator.Elementary.Logarithm
import Calculator.Proofs.Binary64.Accuracy
import Calculator.Proofs.Binary64.Scaling
import Calculator.Proofs.Elementary.SeriesBounds

namespace Calculator.Series

open Binary64 (exactValue? rounded Near roundoff)

variable {x : Float} {a b : ℚ} {t : ℝ} {n : ℕ} {s : PartialSum}

section Run

def logarithmSettled (n : ℕ) (s : PartialSum) : Bool :=
  Binary64.abs (s.term / Float.ofNat (2 * n + 1)) ≤ logarithmPrecision

def logarithmStep (x : Float) (n : ℕ) (s : PartialSum) : PartialSum :=
  ⟨s.term * (x * x), s.total + s.term / Float.ofNat (2 * n + 1)⟩

theorem logarithm_eq (a : Float) : logarithm a =
    2 * (run logarithmSettled (logarithmStep ((a - 1) / (a + 1))) maxTerms 0 ⟨(a - 1) / (a + 1), 0⟩).total := rfl

end Run

section Terms

def Below (e : ℤ) (x : Float) : Prop := ∃ q, exactValue? x = some q ∧ 0 ≤ q ∧ q ≤ 2 ^ e

theorem Below.mul {y : Float} {e f : ℤ} (left : Below e x) (right : Below f y) (least : -1074 ≤ e + f)
    (most : e + f < 1024) : Below (e + f) (x * y) := by
  obtain ⟨p, known, nonnegative, bound⟩ := left
  obtain ⟨q, known', nonnegative', bound'⟩ := right
  have product := mul_nonneg nonnegative nonnegative'
  have magnitude : |p * q| ≤ 2 ^ (e + f) := by
    rw [abs_of_nonneg product, zpow_add₀ two_ne_zero]
    gcongr
  refine ⟨rounded (p * q), ?_, Binary64.rounded_nonneg product, ?_⟩
  · rw [Binary64.exactValue?_mul known known', Binary64.nearestReal?_of_abs_le magnitude least most]
  · exact (le_abs_self _).trans (Binary64.abs_rounded_le least magnitude)

theorem below_of_near {v δ : ℝ} {q : ℚ} {e : ℤ} (near : Near x v δ) (rounds : exactValue? x = Binary64.nearestReal? q)
    (nonnegative : 0 ≤ q) (bound : v + δ ≤ 2 ^ e) : Below e x := by
  obtain ⟨p, known, close⟩ := near
  refine ⟨p, known, ?_, ?_⟩
  · rw [Binary64.eq_rounded (rounds.symm.trans known)]
    exact Binary64.rounded_nonneg nonnegative
  · rw [← Rat.cast_le (K := ℝ), Rat.cast_zpow, Rat.cast_ofNat]
    linarith [(abs_le.mp close).2]

structure Reduced (t : ℝ) (x : Float) : Prop where
  nonnegative : 0 ≤ t
  most : t ≤ 1 / 3
  argument : Near x t (3 / 2 * roundoff)
  half : Below (-1) x

theorem Reduced.square (reduced : Reduced t x) : Near (x * x) (t ^ 2) (5 / 4 * roundoff) := by
  have error := Binary64.roundoff_pos
  have small := Binary64.roundoff_lt
  obtain ⟨nonnegative, most, near, -⟩ := reduced
  rw [sq]
  refine (near.mul near (Binary64.inRange_of_le (by norm_num) (by norm_num)) (κ := 21 / 20 * roundoff)
    (M := 1 / 8) ?_ ?_).mono (by linarith)
  · rw [abs_of_nonneg nonnegative]
    nlinarith
  · rw [abs_of_nonneg (mul_self_nonneg t)]
    nlinarith

theorem Reduced.eighth (reduced : Reduced t x) : Below (-3) (x * x) := by
  have small := Binary64.roundoff_lt
  have square : t ^ 2 ≤ 1 / 9 := by nlinarith [reduced.nonnegative, reduced.most]
  obtain ⟨a, known, -⟩ := reduced.argument
  refine below_of_near reduced.square (Binary64.exactValue?_mul known known) (mul_self_nonneg a) ?_
  norm_num
  linarith

/-- Before the term with the number `n` is added. Each is at most an eighth of the one before. -/
structure LogarithmTerms (t : ℝ) (n : ℕ) (s : PartialSum) : Prop where
  term : Near s.term (t ^ (2 * n + 1)) (3 / 2 * roundoff)
  small : Below (-1 - 3 * n) s.term
  total : Near s.total (∑ i ∈ Finset.range n, t ^ (2 * i + 1) / (2 * i + 1)) (5 / 2 * roundoff * n)

theorem exactValue?_odd (inside : n ≤ 22) : exactValue? (Float.ofNat (2 * n + 1)) = some ((2 * n + 1 : ℕ) : ℚ) :=
  Binary64.toInt?_eq_some_iff.mp (Binary64.toInt?_ofNat (by omega))

theorem logarithmTerms_start (reduced : Reduced t x) : LogarithmTerms t 0 ⟨x, 0⟩ where
  term := by simpa using reduced.argument
  small := reduced.half
  total := ⟨0, Binary64.exactValue?_ofNat_zero, by simp⟩

section Step

variable (reduced : Reduced t x) (terms : LogarithmTerms t n s)
include reduced

theorem pow_nonneg_le (n : ℕ) : 0 ≤ t ^ (2 * n + 1) ∧ t ^ (2 * n + 1) ≤ 1 / 3 := by
  have nonnegative := reduced.nonnegative
  have most := reduced.most
  refine ⟨pow_nonneg nonnegative _, ?_⟩
  calc t ^ (2 * n + 1) ≤ t := pow_le_of_le_one nonnegative (by linarith) (by omega)
    _ ≤ 1 / 3 := most

theorem sum_nonneg_le (n : ℕ) : 0 ≤ ∑ i ∈ Finset.range n, t ^ (2 * i + 1) / (2 * i + 1) ∧
    ∑ i ∈ Finset.range n, t ^ (2 * i + 1) / (2 * i + 1) ≤ 9 / 25 := by
  have nonnegative := reduced.nonnegative
  have most := reduced.most
  refine ⟨by positivity, (Real.sum_range_le_log_div nonnegative (by linarith) n).trans ?_⟩
  have two : (1 + t) / (1 - t) ≤ 2 := by
    rw [div_le_iff₀ (by linarith)]
    linarith
  have log := Real.log_le_log (div_pos (by linarith) (by linarith)) two
  linarith [Real.log_two_lt_d9]

include terms

theorem near_quotient (inside : n ≤ 22) :
    Near (s.term / Float.ofNat (2 * n + 1)) (t ^ (2 * n + 1) / (2 * n + 1)) (2 * roundoff) := by
  have error := Binary64.roundoff_pos
  have small := Binary64.roundoff_lt
  obtain ⟨nonnegative, power⟩ := pow_nonneg_le reduced n
  have divisor : (1 : ℝ) ≤ 2 * n + 1 := by linarith [Nat.cast_nonneg (α := ℝ) n]
  have odd : (((2 * n + 1 : ℕ) : ℚ) : ℝ) = 2 * n + 1 := by push_cast; ring
  have bound : |t ^ (2 * n + 1) / (2 * n + 1)| + 3 / 2 * roundoff / (2 * n + 1) ≤ 1 / 2 := by
    rw [abs_of_nonneg (by positivity), ← add_div, div_le_iff₀ (by linarith)]
    linarith
  have quotient := terms.term.div (Binary64.inRange_of_le (by norm_num) (by norm_num)) (exactValue?_odd inside)
    (by positivity) (odd ▸ bound)
  rw [odd] at quotient
  refine quotient.mono ?_
  have shrunk : 3 / 2 * roundoff / (2 * n + 1) ≤ 3 / 2 * roundoff := div_le_self (by linarith) divisor
  linarith

theorem near_next_term : Near (s.term * (x * x)) (t ^ (2 * (n + 1) + 1)) (3 / 2 * roundoff) := by
  have error := Binary64.roundoff_pos
  have small := Binary64.roundoff_lt
  obtain ⟨nonnegative, power⟩ := pow_nonneg_le reduced n
  have square : t ^ 2 ≤ 1 / 9 := by nlinarith [reduced.nonnegative, reduced.most]
  have product : t ^ (2 * n + 1) * t ^ 2 ≤ 1 / 3 * (1 / 9) := by gcongr
  rw [show t ^ (2 * (n + 1) + 1) = t ^ (2 * n + 1) * t ^ 2 by ring]
  refine (terms.term.mul reduced.square (Binary64.inRange_of_le (by norm_num) (by norm_num))
    (κ := roundoff) (M := 1 / 2) ?_ ?_).mono (by linarith)
  · rw [abs_of_nonneg nonnegative, abs_of_nonneg (sq_nonneg t)]
    nlinarith
  · rw [abs_of_nonneg (by positivity)]
    linarith

theorem near_next_total (inside : n < 22) : Near (s.total + s.term / Float.ofNat (2 * n + 1))
    (∑ i ∈ Finset.range (n + 1), t ^ (2 * i + 1) / (2 * i + 1)) (5 / 2 * roundoff * (n + 1 : ℕ)) := by
  have error := Binary64.roundoff_pos
  have small := Binary64.roundoff_lt
  have count : (n : ℝ) ≤ 22 := by exact_mod_cast inside.le
  obtain ⟨nonnegative, most⟩ := sum_nonneg_le reduced (n + 1)
  rw [Finset.sum_range_succ] at nonnegative most ⊢
  refine (terms.total.add (near_quotient reduced terms inside.le) (M := 1 / 2)
    (Binary64.inRange_of_le (by norm_num) (by norm_num)) ?_).mono ?_
  · rw [abs_of_nonneg nonnegative]
    nlinarith
  · push_cast
    linarith

theorem logarithmTerms_next (inside : n < 22) :
    LogarithmTerms t (n + 1) (logarithmStep x n s) where
  term := near_next_term reduced terms
  small := by
    have shorter : -1 - 3 * ((n + 1 : ℕ) : ℤ) = -1 - 3 * n + -3 := by omega
    rw [shorter]
    exact terms.small.mul reduced.eighth (by omega) (by omega)
  total := near_next_total reduced terms inside

end Step

end Terms

section Argument

variable {c : ℚ} (known : exactValue? x = some c) (least : 1 ≤ c) (most : c ≤ 2)
include known least most

theorem near_numerator : Near (x - 1) (c - 1) roundoff := by
  have least' : (1 : ℝ) ≤ c := by exact_mod_cast least
  have most' : (c : ℝ) ≤ 2 := by exact_mod_cast most
  have one := Binary64.near_of_exactValue? Binary64.exactValue?_ofNat_one
  rw [Rat.cast_one] at one
  refine ((Binary64.near_of_exactValue? known).sub one (M := 1)
    (Binary64.inRange_of_le (by norm_num) (by norm_num)) ?_).mono (by linarith)
  rw [abs_of_nonneg (by linarith)]
  linarith

theorem near_denominator : Near (x + 1) (c + 1) (3 * roundoff) := by
  have least' : (1 : ℝ) ≤ c := by exact_mod_cast least
  have most' : (c : ℝ) ≤ 2 := by exact_mod_cast most
  have one := Binary64.near_of_exactValue? Binary64.exactValue?_ofNat_one
  rw [Rat.cast_one] at one
  refine ((Binary64.near_of_exactValue? known).add one (M := 3)
    (Binary64.inRange_of_le (by norm_num) (by norm_num)) ?_).mono (by linarith)
  rw [abs_of_nonneg (by linarith)]
  linarith

omit known in
theorem argument_nonneg_le : 0 ≤ (c - 1) / (c + 1 : ℝ) ∧ (c - 1) / (c + 1 : ℝ) ≤ 1 / 3 := by
  have least' : (1 : ℝ) ≤ c := by exact_mod_cast least
  have most' : (c : ℝ) ≤ 2 := by exact_mod_cast most
  refine ⟨div_nonneg (by linarith) (by linarith), ?_⟩
  rw [div_le_iff₀ (by linarith)]
  linarith

theorem near_argument : Near ((x - 1) / (x + 1)) ((c - 1) / (c + 1)) (3 / 2 * roundoff) := by
  have error := Binary64.roundoff_pos
  have small := Binary64.roundoff_lt
  have least' : (1 : ℝ) ≤ c := by exact_mod_cast least
  obtain ⟨nonnegative, third⟩ := argument_nonneg_le least most
  have quotient := abs_of_nonneg nonnegative
  have apart : (0 : ℝ) < 199 / 100 := by norm_num
  refine ((near_numerator known least most).div_near (near_denominator known least most) (κ := 11 / 10 * roundoff)
    (M := 2 / 5) (Binary64.inRange_of_le (by norm_num) (by norm_num)) apart ?_ ?_ ?_).mono ?_
  · linarith
  · rw [div_le_iff₀ (by norm_num), quotient]
    nlinarith
  · linarith
  · linarith

theorem below_argument : Below (-1) ((x - 1) / (x + 1)) := by
  have small := Binary64.roundoff_lt
  have least' : (1 : ℝ) ≤ c := by exact_mod_cast least
  obtain ⟨p, numerator, -⟩ := near_numerator known least most
  obtain ⟨r, denominator, close⟩ := near_denominator known least most
  have positive : 0 < r := by
    rw [← Rat.cast_pos (K := ℝ)]
    linarith [(abs_le.mp close).1]
  have rounds := Binary64.exactValue?_sub known Binary64.exactValue?_ofNat_one
  have nonnegative : 0 ≤ p := by
    rw [Binary64.eq_rounded (rounds.symm.trans numerator)]
    exact Binary64.rounded_nonneg (by linarith)
  refine below_of_near (near_argument known least most)
    (Binary64.exactValue?_div numerator denominator positive.ne') (div_nonneg nonnegative positive.le) ?_
  have third := (argument_nonneg_le least most).2
  rw [zpow_neg_one]
  linarith

theorem reduced_argument : Reduced ((c - 1) / (c + 1)) ((x - 1) / (x + 1)) where
  nonnegative := (argument_nonneg_le least most).1
  most := (argument_nonneg_le least most).2
  argument := near_argument known least most
  half := below_argument known least most

end Argument

section Result

theorem exists_logarithmPrecision : ∃ p ∈ exactValue? logarithmPrecision, 2 ^ (-67 : ℤ) ≤ p ∧ p < 2 ^ (-66 : ℤ) := by
  decide +kernel

theorem pow_le_of_settled (terms : LogarithmTerms t n s) (inside : n ≤ 22)
    (settled : logarithmSettled n s = true) : t ^ (2 * n + 1) ≤ 8 / 5 * roundoff := by
  obtain ⟨p, known, close⟩ := terms.term
  obtain ⟨p', known', nonnegative, most⟩ := terms.small
  obtain rfl : p' = p := Option.some.inj (known'.symm.trans known)
  have odd : (0 : ℚ) < (2 * n + 1 : ℕ) := by positivity
  have quotient : |p' / (2 * n + 1 : ℕ)| ≤ 2 ^ (-1 - 3 * n : ℤ) := by
    rw [abs_of_nonneg (div_nonneg nonnegative odd.le), div_le_iff₀ odd]
    refine most.trans (le_mul_of_one_le_right (zpow_nonneg zero_le_two _) ?_)
    exact_mod_cast Nat.le_add_left 1 _
  have value : exactValue? (s.term / Float.ofNat (2 * n + 1)) = some (rounded (p' / (2 * n + 1 : ℕ))) := by
    rw [Binary64.exactValue?_div known (exactValue?_odd inside) odd.ne',
      Binary64.nearestReal?_of_abs_le quotient (by omega) (by omega)]
  obtain ⟨precision, exact, -, short⟩ := exists_logarithmPrecision
  rw [logarithmSettled, decide_eq_true_iff, Binary64.le_iff_value_le (Binary64.exactValue?_abs value) exact] at settled
  -- rounding takes nothing below a power of two
  have small : p' / (2 * n + 1 : ℕ) < 2 ^ (-66 : ℤ) := by
    by_contra great
    have rounds := Binary64.le_abs_rounded (by norm_num) ((not_lt.mp great).trans (le_abs_self _))
    exact absurd (rounds.trans settled) (not_le.mpr short)
  have count : (2 * n + 1 : ℕ) ≤ (45 : ℚ) := by exact_mod_cast (by omega : 2 * n + 1 ≤ 45)
  have tiny : p' ≤ 45 * 2 ^ (-66 : ℤ) := by
    rw [div_lt_iff₀ odd] at small
    have power : (0 : ℚ) < 2 ^ (-66 : ℤ) := zpow_pos two_pos _
    nlinarith
  have tiny' : (p' : ℝ) ≤ 1 / 10 * roundoff := by
    have cast := Rat.cast_le (K := ℝ) |>.mpr tiny
    push_cast at cast
    refine cast.trans ?_
    unfold roundoff
    norm_num
  linarith [(abs_le.mp close).1]

theorem settled_of_many (terms : LogarithmTerms t 22 s) : logarithmSettled 22 s = true := by
  obtain ⟨p, known, nonnegative, most⟩ := terms.small
  have quotient : |p / (2 * 22 + 1 : ℕ)| ≤ 2 ^ (-67 : ℤ) := by
    rw [abs_of_nonneg (by positivity)]
    exact (div_le_self nonnegative (by norm_num)).trans most
  have value : exactValue? (s.term / Float.ofNat (2 * 22 + 1)) = some (rounded (p / (2 * 22 + 1 : ℕ))) := by
    rw [Binary64.exactValue?_div known (exactValue?_odd le_rfl) (by norm_num),
      Binary64.nearestReal?_of_abs_le quotient (by norm_num) (by norm_num)]
  obtain ⟨precision, exact, least, -⟩ := exists_logarithmPrecision
  rw [logarithmSettled, decide_eq_true_iff, Binary64.le_iff_value_le (Binary64.exactValue?_abs value) exact]
  exact (Binary64.abs_rounded_le (by norm_num) quotient).trans least

theorem near_half_log (reduced : Reduced t x) (terms : LogarithmTerms t n s) (inside : n ≤ 22)
    (settled : logarithmSettled n s = true) : Near s.total (1 / 2 * Real.log ((1 + t) / (1 - t))) (57 * roundoff) := by
  have error := Binary64.roundoff_pos
  have nonnegative := reduced.nonnegative
  have third := reduced.most
  have power := pow_le_of_settled terms inside settled
  have tail := Real.sum_range_sub_log_div_le (abs_lt.mpr ⟨by linarith, by linarith⟩ : |t| < 1) n
  rw [abs_of_nonneg nonnegative, abs_sub_comm] at tail
  have rest : t ^ (2 * n + 1) / (1 - t ^ 2) ≤ 2 * roundoff := by
    have square : 8 / 9 ≤ 1 - t ^ 2 := by nlinarith
    rw [div_le_iff₀ (by linarith)]
    nlinarith
  have count : (n : ℝ) ≤ 22 := by exact_mod_cast inside
  exact (terms.total.trans (tail.trans rest)).mono (by nlinarith)

theorem near_logarithm {c : ℚ} (known : exactValue? x = some c) (least : 1 ≤ c) (most : c ≤ 2) :
    Near (logarithm x) (Real.log c) (120 * roundoff) := by
  have error := Binary64.roundoff_pos
  have small := Binary64.roundoff_lt
  have least' : (1 : ℝ) ≤ c := by exact_mod_cast least
  have most' : (c : ℝ) ≤ 2 := by exact_mod_cast most
  have reduced := reduced_argument known least most
  obtain ⟨m, inside, terms, settled⟩ := run_settles (LogarithmTerms _) maxTerms
    (fun n s before terms => logarithmTerms_next reduced terms before) (fun s => settled_of_many) (Nat.zero_le 22)
    (by decide) (logarithmTerms_start reduced)
  have proportion : (1 + (c - 1) / (c + 1) : ℝ) / (1 - (c - 1) / (c + 1)) = c := by
    field_simp
    ring
  have half := near_half_log reduced terms inside settled
  rw [proportion] at half
  have log := Real.log_le_log (by linarith) most'
  have sign := Real.log_nonneg least'
  have two := Binary64.near_of_exactValue? Binary64.exactValue?_two
  rw [Rat.cast_ofNat] at two
  have doubled := two.mul half (κ := 114 * roundoff) (M := 1) (Binary64.inRange_of_le (by norm_num) (by norm_num))
    (by rw [abs_two]; linarith) (by rw [abs_of_nonneg (by linarith)]; linarith [Real.log_two_lt_d9])
  rw [logarithm_eq]
  rw [show 2 * (1 / 2 * Real.log c) = Real.log c by ring] at doubled
  exact doubled.mono (by linarith)

end Result

end Calculator.Series
