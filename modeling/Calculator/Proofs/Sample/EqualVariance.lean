import Calculator.Proofs.Elementary.SquareRoots
import Calculator.Proofs.Sample.EqualSums
import Calculator.Proofs.Sample.NotFinite

namespace Calculator.Sample

open Binary64 (exactValue? nearestReal? rounded Representable Near InRange roundoff)

variable {x : Float} {q r : ℚ} {n : ℕ} {i j : ℤ}

section Parts

theorem average_replicate (n : ℕ) (x : Float) :
    average (List.replicate n x) = sum (List.replicate n x) / Float.ofNat n := by
  rw [average, List.length_replicate]

theorem sumOfSquares_replicate (n : ℕ) (x : Float) :
    sumOfSquares (List.replicate n x) = sum (List.replicate n (x * x)) := by
  rw [sumOfSquares, List.map_replicate]

theorem squaredMean_replicate (n : ℕ) (x : Float) : squaredMean (List.replicate n x) =
    Float.ofNat n * average (List.replicate n x) * average (List.replicate n x) := by
  rw [squaredMean, List.length_replicate]

theorem variance_replicate (n : ℕ) (x : Float) : variance (List.replicate n x) =
    (sumOfSquares (List.replicate n x) - squaredMean (List.replicate n x)) / (Float.ofNat n - 1) := by
  rw [variance, List.length_replicate]

end Parts

section Few

variable (known : exactValue? x = some q) (lower : 2 ^ (-400 : ℤ) ≤ |(q : ℝ)|) (upper : |(q : ℝ)| ≤ 2 ^ (400 : ℤ))
  (several : 3 ≤ n) (few : n ≤ 2 ^ 52)

theorem exactValue?_ofNat_of_few (few : n ≤ 2 ^ 52) : exactValue? (Float.ofNat n) = some (n : ℚ) := by
  rw [Binary64.exactValue?_ofNat]
  exact Binary64.nearestReal?_of_short (n := n) (by rw [Nat.abs_cast]; omega)

section Squares

include lower upper

theorem inRange_sample {c : ℝ} (least : 1 / 2 ^ 100 ≤ c) (most : c ≤ 2 ^ 100) : InRange (c * |(q : ℝ)|) :=
  Binary64.inRange_multiple ((zpow_le_zpow_right₀ one_le_two (by norm_num)).trans lower)
    (upper.trans (zpow_le_zpow_right₀ one_le_two (by norm_num))) least most

theorem square_bounds : 2 ^ (-800 : ℤ) ≤ |(q : ℝ)| ^ 2 ∧ |(q : ℝ)| ^ 2 ≤ 2 ^ (800 : ℤ) := by
  have least : ((2 : ℝ) ^ (-400 : ℤ)) ^ 2 = 2 ^ (-800 : ℤ) := by rw [← zpow_natCast, ← zpow_mul]; norm_num
  have most : ((2 : ℝ) ^ (400 : ℤ)) ^ 2 = 2 ^ (800 : ℤ) := by rw [← zpow_natCast, ← zpow_mul]; norm_num
  rw [← least, ← most]
  exact ⟨pow_le_pow_left₀ (zpow_pos two_pos _).le lower 2, pow_le_pow_left₀ (abs_nonneg _) upper 2⟩

theorem inRange_square {c : ℝ} (least : 1 / 2 ^ 100 ≤ c) (most : c ≤ 2 ^ 100) : InRange (c * |(q : ℝ)| ^ 2) := by
  obtain ⟨lower', upper'⟩ := square_bounds lower upper
  exact Binary64.inRange_multiple ((zpow_le_zpow_right₀ one_le_two (by norm_num)).trans lower')
    (upper'.trans (zpow_le_zpow_right₀ one_le_two (by norm_num))) least most

theorem rounded_square_bounds (least : 1 / 2 * |(q : ℝ)| ^ 2 ≤ |(r : ℝ)|) (most : |(r : ℝ)| ≤ 2 * |(q : ℝ)| ^ 2) :
    2 ^ (-900 : ℤ) ≤ |(r : ℝ)| ∧ |(r : ℝ)| ≤ 2 ^ (900 : ℤ) := by
  obtain ⟨lower', upper'⟩ := square_bounds lower upper
  constructor
  · calc (2 : ℝ) ^ (-900 : ℤ) ≤ 2 ^ (-1 + -800 : ℤ) := zpow_le_zpow_right₀ one_le_two (by norm_num)
      _ = 1 / 2 * 2 ^ (-800 : ℤ) := by rw [zpow_add₀ two_ne_zero, zpow_neg_one, one_div]
      _ ≤ 1 / 2 * |(q : ℝ)| ^ 2 := mul_le_mul_of_nonneg_left lower' (by norm_num)
      _ ≤ |(r : ℝ)| := least
  · calc |(r : ℝ)| ≤ 2 * |(q : ℝ)| ^ 2 := most
      _ ≤ 2 * 2 ^ (800 : ℤ) := mul_le_mul_of_nonneg_left upper' two_pos.le
      _ = 2 ^ (1 + 800 : ℤ) := by rw [zpow_add₀ two_ne_zero, zpow_one]
      _ ≤ 2 ^ (900 : ℤ) := zpow_le_zpow_right₀ one_le_two (by norm_num)

include known in
theorem exists_square : ∃ r, exactValue? (x * x) = some r ∧ |(r : ℝ) - |(q : ℝ)| ^ 2| ≤ roundoff * |(q : ℝ)| ^ 2 ∧
    1 / 2 * |(q : ℝ)| ^ 2 ≤ |(r : ℝ)| ∧ |(r : ℝ)| ≤ (1 + roundoff) * |(q : ℝ)| ^ 2 := by
  have near := Binary64.near_of_exactValue? known
  have square := near.mul near (κ := 0) (M := 1 * |(q : ℝ)| ^ 2) (inRange_square lower upper (by norm_num) (by norm_num))
    (by simp) (by rw [abs_mul, add_zero, one_mul, sq])
  rw [zero_add, one_mul, ← sq, ← sq_abs] at square
  obtain ⟨r, value, close⟩ := square
  obtain ⟨below, above⟩ := abs_le.mp close
  have scale : 0 < |(q : ℝ)| ^ 2 := (zpow_pos two_pos _).trans_le (square_bounds lower upper).1
  have half : 1 / 2 * |(q : ℝ)| ^ 2 ≤ r := by
    rw [Binary64.roundoff_eq] at below
    linarith
  refine ⟨r, value, close, ?_⟩
  rw [abs_of_pos (by linarith : (0 : ℝ) < r)]
  exact ⟨half, by linarith⟩

end Squares

include known lower upper several few

theorem near_average : Near (average (List.replicate n x)) q ((3 / 4 * n + 7 / 5) * |(q : ℝ)| * roundoff) := by
  have positive : 0 < |(q : ℝ)| := (zpow_pos two_pos _).trans_le lower
  have count : (n : ℝ) ≤ 2 ^ 52 := by exact_mod_cast few
  obtain ⟨k, rfl⟩ : ∃ k, n = k + 1 := ⟨n - 1, by omega⟩
  have total := near_sum_replicate known ((zpow_le_zpow_right₀ one_le_two (by norm_num)).trans lower)
    (upper.trans (zpow_le_zpow_right₀ one_le_two (by norm_num))) few
  rw [← Nat.cast_add_one] at total
  generalize k + 1 = n at several few count total ⊢
  have total' : Near (sum (List.replicate n x)) (n * q) (n * (3 / 4 * n * |(q : ℝ)| * roundoff)) :=
    total.mono (le_of_eq (by ring))
  have part : 3 / 4 * n * |(q : ℝ)| * roundoff ≤ 3 / 8 * |(q : ℝ)| := by
    rw [Binary64.roundoff_eq]
    nlinarith
  rw [average_replicate]
  refine (total'.div_natCast (M := 11 / 8 * |(q : ℝ)|) (inRange_sample lower upper (by norm_num) (by norm_num))
    (exactValue?_ofNat_of_few few) (by omega) (by linarith)).mono ?_
  rw [Binary64.roundoff_eq]
  linarith

theorem near_multiple_of_average : Near (Float.ofNat n * average (List.replicate n x)) (n * q)
    (n * (3 / 4 * n + 14 / 5) * |(q : ℝ)| * roundoff) := by
  have positive : 0 < |(q : ℝ)| := (zpow_pos two_pos _).trans_le lower
  have count : (n : ℝ) ≤ 2 ^ 52 := by exact_mod_cast few
  have first : (3 : ℝ) ≤ n := by exact_mod_cast several
  have mean := near_average known lower upper several few
  have length := Binary64.near_of_exactValue? (exactValue?_ofNat_of_few few)
  have share : (3 / 4 * n + 7 / 5) * roundoff ≤ 39 / 100 := by
    rw [Binary64.roundoff_eq]
    linarith
  rw [Rat.cast_natCast] at length
  refine (length.mul mean (κ := n * ((3 / 4 * n + 7 / 5) * roundoff * |(q : ℝ)|)) (M := 7 / 5 * n * |(q : ℝ)|)
    (inRange_sample lower upper (by linarith) (by linarith)) ?_ ?_).mono ?_
  · rw [Nat.abs_cast]
    linarith
  · rw [abs_mul, Nat.abs_cast]
    have part := mul_le_mul_of_nonneg_left (mul_le_mul_of_nonneg_right share positive.le) (Nat.cast_nonneg (α := ℝ) n)
    have scale : 0 ≤ n * |(q : ℝ)| := by positivity
    linarith
  · linarith

theorem near_squaredMean : Near (squaredMean (List.replicate n x)) (n * q ^ 2)
    (n * (9 / 5 * n + 37 / 5) * |(q : ℝ)| ^ 2 * roundoff) := by
  have positive : 0 < |(q : ℝ)| := (zpow_pos two_pos _).trans_le lower
  have count : (n : ℝ) ≤ 2 ^ 52 := by exact_mod_cast few
  have first : (3 : ℝ) ≤ n := by exact_mod_cast several
  have mean := near_average known lower upper several few
  have multiple := near_multiple_of_average known lower upper several few
  have share : (9 / 5 * n + 27 / 5) * roundoff ≤ 19 / 20 := by
    rw [Binary64.roundoff_eq]
    linarith
  have both : (3 / 4 * n + 14 / 5) * (3 / 4 * n + 7 / 5) * roundoff ≤ 39 / 100 * (3 / 4 * n + 14 / 5) := by
    rw [Binary64.roundoff_eq]
    nlinarith
  have scale : 0 ≤ n * |(q : ℝ)| ^ 2 := by positivity
  have error := Binary64.roundoff_pos
  rw [squaredMean_replicate, (by ring : (n : ℝ) * q ^ 2 = n * q * q)]
  refine (multiple.mul mean (κ := n * |(q : ℝ)| ^ 2 * ((9 / 5 * n + 27 / 5) * roundoff)) (M := 2 * n * |(q : ℝ)| ^ 2)
    (inRange_square lower upper (by linarith) (by linarith)) ?_ ?_).mono ?_
  · rw [abs_mul, Nat.abs_cast]
    calc _ = n * |(q : ℝ)| ^ 2 * (((3 / 4 * n + 7 / 5) + (3 / 4 * n + 14 / 5) +
            (3 / 4 * n + 14 / 5) * (3 / 4 * n + 7 / 5) * roundoff) * roundoff) := by ring
      _ ≤ _ := mul_le_mul_of_nonneg_left (mul_le_mul_of_nonneg_right (by linarith) error.le) scale
  · rw [abs_mul, abs_mul, Nat.abs_cast]
    have part := mul_le_mul_of_nonneg_left share scale
    linarith
  · linarith

omit several in
theorem near_sumOfSquares (first : 1 ≤ n) : Near (sumOfSquares (List.replicate n x)) (n * q ^ 2)
    (n * (19 / 25 * n + 1) * |(q : ℝ)| ^ 2 * roundoff) := by
  obtain ⟨r, value, close, least, most⟩ := exists_square known lower upper
  obtain ⟨least', most'⟩ := rounded_square_bounds lower upper least
    (most.trans (mul_le_mul_of_nonneg_right (by rw [Binary64.roundoff_eq]; norm_num) (sq_nonneg _)))
  obtain ⟨k, rfl⟩ : ∃ k, n = k + 1 := ⟨n - 1, by omega⟩
  have total := near_sum_replicate value least' most' few
  rw [← Nat.cast_add_one] at total
  generalize k + 1 = n at total ⊢
  rw [sumOfSquares_replicate]
  refine (total.trans (w := n * q ^ 2) (ε := n * (roundoff * |(q : ℝ)| ^ 2)) ?_).mono ?_
  · rw [← mul_sub, abs_mul, Nat.abs_cast, ← sq_abs (q : ℝ)]
    exact mul_le_mul_of_nonneg_left close (Nat.cast_nonneg n)
  · have error : 0 ≤ (n : ℝ) ^ 2 * roundoff := mul_nonneg (sq_nonneg _) Binary64.roundoff_pos.le
    have part := mul_le_mul_of_nonneg_left most error
    have more : (n : ℝ) ^ 2 * roundoff * (3 / 4 * ((1 + roundoff) * |(q : ℝ)| ^ 2)) ≤
        (n : ℝ) ^ 2 * roundoff * (19 / 25 * |(q : ℝ)| ^ 2) := by
      refine mul_le_mul_of_nonneg_left ?_ error
      rw [Binary64.roundoff_eq]
      linarith [sq_nonneg |(q : ℝ)|]
    linarith

theorem near_variance : Near (variance (List.replicate n x)) 0 (41 / 5 * n * |(q : ℝ)| ^ 2 * roundoff) := by
  have count : (n : ℝ) ≤ 2 ^ 52 := by exact_mod_cast few
  have first : (3 : ℝ) ≤ n := by exact_mod_cast several
  have scale : 0 ≤ |(q : ℝ)| ^ 2 := by positivity
  have divisor : exactValue? (Float.ofNat n - 1) = some ((n - 1 : ℕ) : ℚ) := by
    have one : exactValue? 1 = some ((1 : ℕ) : ℚ) := Binary64.exactValue?_ofNat_one
    rw [Binary64.exactValue?_sub (exactValue?_ofNat_of_few few) one, ← Nat.cast_sub (by omega)]
    exact Binary64.nearestReal?_of_short (n := (n - 1 : ℕ)) (by rw [Nat.abs_cast]; omega)
  have cast : (((n - 1 : ℕ) : ℚ) : ℝ) = n - 1 := by
    push_cast [Nat.cast_sub (by omega : 1 ≤ n)]
    ring
  have difference := (near_sumOfSquares known lower upper few (by omega)).sub
    (near_squaredMean known lower upper several few) (M := n * (64 / 25 * n + 42 / 5) * roundoff * |(q : ℝ)| ^ 2)
    (inRange_square lower upper ?_ ?_) ?_
  · rw [sub_self] at difference
    have spread : n * (64 / 25 * n + 42 / 5) * (1 + roundoff) ≤ (n - 1) * (81 / 10 * n : ℝ) := by
      rw [Binary64.roundoff_eq]
      nlinarith
    have part := mul_le_mul_of_nonneg_right spread (mul_nonneg Binary64.roundoff_pos.le scale)
    have left := difference.mono (ε := (n - 1) * (81 / 10 * n * roundoff * |(q : ℝ)| ^ 2)) (by linarith)
    have range := inRange_square lower upper (c := 81 / 10 * n * roundoff) (by rw [Binary64.roundoff_eq]; linarith)
      (by rw [Binary64.roundoff_eq]; linarith)
    have quotient := left.div range divisor (by exact_mod_cast (by omega : 0 < n - 1))
      (by rw [cast, zero_div, abs_zero, zero_add, mul_div_cancel_left₀ _ (by linarith)])
    rw [cast, zero_div, mul_div_cancel_left₀ _ (by linarith)] at quotient
    rw [variance_replicate]
    refine quotient.mono ?_
    have error : 0 ≤ n * roundoff * |(q : ℝ)| ^ 2 := mul_nonneg (mul_nonneg (by linarith) Binary64.roundoff_pos.le) scale
    rw [Binary64.roundoff_eq] at error ⊢
    linarith
  · rw [Binary64.roundoff_eq]
    nlinarith
  · rw [Binary64.roundoff_eq]
    nlinarith
  · rw [sub_self, abs_zero]
    linarith

end Few

section Exact

variable (known : exactValue? x = some q) (several : 2 ≤ n)
include several

theorem length_sub_one_cases (finite : (Float.ofNat n).isFinite = true) :
    ∃ d, exactValue? (Float.ofNat n - 1) = some d ∧ 1 ≤ d ∧ (2 ^ 52 < n → 2 ^ 52 ≤ d) := by
  rcases length_cases several with ⟨b, length, -, divisor, least⟩ | ⟨infinite, -⟩
  · refine ⟨_, divisor, least, fun many => ?_⟩
    have value := Binary64.exactValue?_ofNat n
    have count := Binary64.rounded_intCast (n := 2 ^ 52 + 1) (by norm_num)
    have power := Binary64.rounded_intCast (n := 2 ^ 52) (by norm_num)
    rw [Int.cast_add, Int.cast_pow, Int.cast_ofNat, Int.cast_one] at count
    rw [Int.cast_pow, Int.cast_ofNat] at power
    rw [Binary64.eq_rounded (value.symm.trans length)]
    have large : 2 ^ 52 + 1 ≤ rounded n := by
      rw [← count]
      exact Binary64.rounded_mono (by exact_mod_cast many)
    rw [← power]
    exact Binary64.rounded_mono (by linarith)
  · rw [Binary64.isFinite_of_infinite infinite] at finite
    cases finite

include known

theorem variance_of_exact_sums (few : n ≤ 2 ^ 53) (square : exactValue? (x * x) = some r)
    (sums : ∀ k ≤ n, Representable (k * q)) (squares : ∀ k ≤ n, Representable (k * r))
    (product : nearestReal? (n * q * q) = some (n * r)) : exactValue? (variance (List.replicate n x)) = some 0 := by
  have nonzero : (n : ℚ) ≠ 0 := by exact_mod_cast (by omega : n ≠ 0)
  have length : exactValue? (Float.ofNat n) = some (n : ℚ) := by
    rw [Binary64.exactValue?_ofNat]
    exact Binary64.nearestReal?_of_short (n := n) (by rw [Nat.abs_cast]; omega)
  obtain ⟨d, divisor, least, -⟩ := length_sub_one_cases several (Binary64.isFinite_iff_exactValue?.mpr ⟨_, length⟩)
  have mean : exactValue? (average (List.replicate n x)) = some q := by
    rw [average_replicate, Binary64.exactValue?_div (exactValue?_sum_replicate known sums) length nonzero,
      mul_div_cancel_left₀ _ nonzero]
    exact Binary64.nearestReal?_of_exactValue? known
  have multiple := Binary64.exactValue?_mul length mean
  rw [sums n le_rfl] at multiple
  have squared := Binary64.exactValue?_mul multiple mean
  rw [product, ← squaredMean_replicate] at squared
  have total := exactValue?_sum_replicate square squares
  rw [← sumOfSquares_replicate] at total
  have difference := Binary64.exactValue?_sub total squared
  rw [sub_self, Binary64.nearestReal?_zero] at difference
  rw [variance_replicate, Binary64.exactValue?_div difference divisor (by linarith), zero_div, Binary64.nearestReal?_zero]

end Exact

section Many

variable (several : 2 ≤ n) (finite : (squaredMean (List.replicate n x)).isFinite = true)
include several finite

/-- The sum of the squares does not grow past a power of two, and what is taken from it is not negative. -/
theorem variance_le_twoPow (square : exactValue? (x * x) = some r) (nonnegative : 0 ≤ r) (small : r ≤ 2 ^ (j - 53))
    (least : -900 ≤ j) (most : j ≤ 900) : ∃ p, exactValue? (variance (List.replicate n x)) = some p ∧
      p ≤ 2 ^ j ∧ (2 ^ 52 < n → p ≤ 2 ^ (j - 52)) := by
  have length : (List.replicate n x).length = n := List.length_replicate
  have count := (isFinite_of_squaredMean finite).1
  rw [length] at count
  obtain ⟨d, divisor, above, many⟩ := length_sub_one_cases several count
  obtain ⟨m, squared⟩ := Binary64.isFinite_iff_exactValue?.mp finite
  have signed := Binary64.sign?_of_isFinite (sign?_squaredMean (by omega)) finite
  have nonnegative' := Binary64.nonneg_of_sign? squared signed
  obtain ⟨s, total, lower, upper⟩ := sum_replicate_le square nonnegative small (by omega) (by omega) n
  rw [← sumOfSquares_replicate] at total
  obtain ⟨t, known, below⟩ := Binary64.exists_sub_le total squared lower nonnegative'
  have part : |t / d| ≤ |t| := by
    rw [abs_div, abs_of_pos (by linarith : 0 < d)]
    exact div_le_self (abs_nonneg t) above
  have quotient := Binary64.exactValue?_div known divisor (by linarith)
  rw [(Binary64.representable_of_exactValue? (Binary64.exactValue?_abs known)).nearestReal?_of_abs_le part,
    ← variance_replicate] at quotient
  have unit := Binary64.unit_pos j
  refine ⟨_, quotient, ?_, fun great => ?_⟩
  · rw [← Binary64.rounded_twoPow (e := j) (by omega)]
    refine Binary64.rounded_mono ?_
    rw [div_le_iff₀ (by linarith)]
    exact (below.trans upper).trans (le_mul_of_one_le_right unit.le above)
  · rw [← Binary64.rounded_twoPow (e := j - 52) (by omega)]
    refine Binary64.rounded_mono ?_
    rw [div_le_iff₀ (by linarith)]
    calc t ≤ 2 ^ j := below.trans upper
      _ = 2 ^ (j - 52) * 2 ^ 52 := by
        rw [zpow_sub₀ two_ne_zero]
        norm_num
      _ ≤ 2 ^ (j - 52) * d := mul_le_mul_of_nonneg_left (many great) (Binary64.unit_pos _).le

end Many

section Bounds

variable (known : exactValue? x = some q) (bounded : |q| ≤ 2 ^ (340 : ℤ))

section Squares

include known bounded

theorem exactValue?_square : exactValue? (x * x) = some (rounded (q * q)) ∧ 0 ≤ rounded (q * q) ∧
    rounded (q * q) ≤ 2 ^ (680 : ℤ) := by
  have small : |q * q| ≤ 2 ^ (680 : ℤ) := by
    rw [abs_mul, (by norm_num : (680 : ℤ) = 340 + 340), zpow_add₀ two_ne_zero]
    exact mul_self_le_mul_self (abs_nonneg q) bounded
  have value := Binary64.exactValue?_mul known known
  rw [Binary64.nearestReal?_of_abs_le small (by decide) (by decide)] at value
  exact ⟨value, Binary64.rounded_nonneg (mul_self_nonneg q), (le_abs_self _).trans (Binary64.abs_rounded_le (by decide) small)⟩

theorem variance_of_tiny (several : 2 ≤ n) (finite : (squaredMean (List.replicate n x)).isFinite = true)
    (tiny : |q| < 2 ^ (-400 : ℤ)) : ∃ p, exactValue? (variance (List.replicate n x)) = some p ∧ p < 1 / 10 ^ 10 := by
  obtain ⟨square, nonnegative, -⟩ := exactValue?_square known bounded
  have small : rounded (q * q) ≤ 2 ^ (-747 - 53 : ℤ) := by
    refine (le_abs_self _).trans (Binary64.abs_rounded_le (by decide) ?_)
    rw [abs_mul, (by norm_num : (-747 - 53 : ℤ) = -400 + -400), zpow_add₀ two_ne_zero]
    exact mul_self_le_mul_self (abs_nonneg q) tiny.le
  obtain ⟨p, value, most, -⟩ := variance_le_twoPow several finite square nonnegative small (by decide) (by decide)
  refine ⟨p, value, most.trans_lt ?_⟩
  calc (2 : ℚ) ^ (-747 : ℤ) ≤ 2 ^ (-34 : ℤ) := zpow_le_zpow_right₀ one_le_two (by norm_num)
    _ < 1 / 10 ^ 10 := by norm_num

end Squares

theorem representable_doubles (representable : Representable r) (small : |r| ≤ 2 ^ (1000 : ℤ)) :
    ∀ k ≤ 2, Representable ((k : ℕ) * r) := by
  intro k few
  obtain rfl | rfl | rfl : k = 0 ∨ k = 1 ∨ k = 2 := by omega
  · rw [Nat.cast_zero, zero_mul]
    exact Binary64.nearestReal?_zero
  · rw [Nat.cast_one, one_mul]
    exact representable
  · have double : |r * 2 ^ (1 : ℤ)| < 2 ^ 1024 := by
      rw [zpow_one, abs_mul, abs_two]
      calc |r| * 2 ≤ 2 ^ (1000 : ℤ) * 2 := mul_le_mul_of_nonneg_right small (by norm_num)
        _ = 2 ^ (1001 : ℤ) := (zpow_add_one₀ two_ne_zero _).symm
        _ < 2 ^ (1024 : ℤ) := zpow_lt_zpow_right₀ one_lt_two (by norm_num)
        _ = 2 ^ 1024 := zpow_natCast 2 1024
    have scaled := representable.scaled double (.inl zero_le_one)
    rwa [zpow_one, mul_comm] at scaled

section Normal

variable (normal : 2 ^ (-400 : ℤ) ≤ |q|)

include normal in
theorem square_normal : 2 ^ (-800 : ℤ) ≤ |q * q| := by
  rw [abs_mul, (by norm_num : (-800 : ℤ) = -400 + -400), zpow_add₀ two_ne_zero]
  exact mul_self_le_mul_self (Binary64.unit_pos _).le normal

include known bounded normal

theorem variance_of_pair : exactValue? (variance (List.replicate 2 x)) = some 0 := by
  obtain ⟨square, nonnegative, most⟩ := exactValue?_square known bounded
  have squares := representable_doubles (Binary64.representable_of_exactValue? square)
    (by rw [abs_of_nonneg nonnegative]; exact most.trans (zpow_le_zpow_right₀ one_le_two (by norm_num)))
  refine variance_of_exact_sums known le_rfl (by norm_num) square
    (representable_doubles (Binary64.representable_of_exactValue? known)
      (bounded.trans (zpow_le_zpow_right₀ one_le_two (by norm_num)))) squares ?_
  have least : (2 : ℚ) ^ (-1022 : ℤ) ≤ |q * q| :=
    (zpow_le_zpow_right₀ one_le_two (by norm_num : (-1022 : ℤ) ≤ -800)).trans (square_normal normal)
  have least' : (2 : ℚ) ^ (-1022 : ℤ) ≤ |q * q * 2 ^ (1 : ℤ)| := by
    rw [zpow_one, abs_mul, abs_two]
    linarith [abs_nonneg (q * q)]
  have scaled := Binary64.rounded_scaled least least'
  have representable := squares 2 le_rfl
  rw [zpow_one] at scaled
  rw [Nat.cast_ofNat, mul_comm, ← scaled] at representable
  have product : ((2 : ℕ) : ℚ) * q * q = q * q * 2 := by
    push_cast
    ring
  rw [product, Nat.cast_ofNat, mul_comm 2, ← scaled, nearestReal?, if_pos (Binary64.representable_iff.mp representable).1]

theorem variance_of_few (several : 3 ≤ n) (few : n ≤ 2 ^ 52) :
    ∃ p, exactValue? (variance (List.replicate n x)) = some p ∧ p ≤ 92 / 10 ^ 17 * (n * q ^ 2) := by
  have cast (e : ℤ) : (((2 : ℚ) ^ e : ℚ) : ℝ) = 2 ^ e := by rw [Rat.cast_zpow, Rat.cast_ofNat]
  have lower : (2 : ℝ) ^ (-400 : ℤ) ≤ |(q : ℝ)| := by
    rw [← cast, ← Rat.cast_abs]
    exact Rat.cast_le.mpr normal
  have upper : |(q : ℝ)| ≤ 2 ^ (400 : ℤ) := by
    rw [← cast, ← Rat.cast_abs]
    exact Rat.cast_le.mpr (bounded.trans (zpow_le_zpow_right₀ one_le_two (by norm_num)))
  obtain ⟨p, value, close⟩ := near_variance known lower upper several few
  refine ⟨p, value, ?_⟩
  rw [sub_zero] at close
  have scale : 0 ≤ n * (q : ℝ) ^ 2 := by positivity
  rw [sq_abs, Binary64.roundoff_eq] at close
  rw [← Rat.cast_le (K := ℝ)]
  push_cast
  linarith [le_abs_self (p : ℝ)]

theorem variance_of_many (finite : (squaredMean (List.replicate n x)).isFinite = true) (many : 2 ^ 52 < n) :
    ∃ p, exactValue? (variance (List.replicate n x)) = some p ∧ p ≤ 92 / 10 ^ 17 * (n * q ^ 2) := by
  obtain ⟨square, nonnegative, most⟩ := exactValue?_square known bounded
  have positive : 2 ^ (-800 : ℤ) ≤ rounded (q * q) := by
    have least := Binary64.le_abs_rounded (by decide) (square_normal normal)
    rwa [abs_of_nonneg nonnegative] at least
  obtain ⟨k, above, below⟩ := exists_mem_Ioc_zpow ((Binary64.unit_pos _).trans_le positive) one_lt_two
  have first := (zpow_lt_zpow_iff_right₀ one_lt_two).mp (above.trans_le most)
  have last := (zpow_le_zpow_iff_right₀ one_lt_two).mp (positive.trans below)
  obtain ⟨p, value, -, bound⟩ := variance_le_twoPow (j := k + 54) (by omega) finite square nonnegative
    (below.trans_eq (congrArg (fun e : ℤ => (2 : ℚ) ^ e) (by omega : k + 1 = k + 54 - 53))) (by omega) (by omega)
  refine ⟨p, value, ?_⟩
  have count : (2 ^ 52 : ℚ) ≤ n := by exact_mod_cast many.le
  have close := Binary64.abs_rounded_sub_le_mul (q := q * q) le_rfl
    ((zpow_le_zpow_right₀ one_le_two (by norm_num)).trans (square_normal normal))
  rw [abs_of_nonneg (mul_self_nonneg q)] at close
  have quadruple : (2 : ℚ) ^ (k + 54 - 52) = 4 * 2 ^ k := by
    rw [(by omega : k + 54 - 52 = 2 + k), zpow_add₀ two_ne_zero]
    norm_num
  have scaled := mul_le_mul_of_nonneg_right count (sq_nonneg q)
  linarith [bound many, (abs_le.mp close).2]

end Normal

theorem representable_multiple {m e : ℤ} {k : ℕ} (few : (k : ℤ) ≤ 2 ^ 53) (short : |k * m| ≤ 2 ^ 53) (least : -1074 ≤ e)
    (small : |(m * 2 ^ e : ℚ)| ≤ 2 ^ (680 : ℤ)) : Representable (k * (m * 2 ^ e)) := by
  have count : (k : ℚ) ≤ 2 ^ (53 : ℤ) := by exact_mod_cast few
  have bound : |(k * (m * 2 ^ e) : ℚ)| < 2 ^ 1024 := by
    rw [abs_mul, Nat.abs_cast]
    calc k * |(m * 2 ^ e : ℚ)| ≤ 2 ^ (53 : ℤ) * 2 ^ (680 : ℤ) :=
          mul_le_mul count small (abs_nonneg _) (Binary64.unit_pos _).le
      _ = 2 ^ (53 + 680 : ℤ) := (zpow_add₀ two_ne_zero _ _).symm
      _ < 2 ^ (1024 : ℤ) := zpow_lt_zpow_right₀ one_lt_two (by norm_num)
      _ = 2 ^ 1024 := zpow_natCast 2 1024
  have same : (k * (m * 2 ^ e) : ℚ) = ((k * m : ℤ) : ℚ) * 2 ^ e := by
    push_cast
    ring
  rw [same] at bound ⊢
  exact Binary64.representable_of_abs_le short least bound

theorem bounds_of_short {m : ℤ} (nonzero : m ≠ 0) (several : 2 ≤ n) (short : n * m ^ 2 ≤ 2 ^ 53) :
    (n : ℤ) ≤ 2 ^ 53 ∧ |m| ≤ m ^ 2 ∧ |m| ≤ 2 ^ 27 := by
  have count : (2 : ℤ) ≤ n := by exact_mod_cast several
  have first : 1 ≤ |m| := Int.one_le_abs nonzero
  rw [← sq_abs] at short ⊢
  refine ⟨by nlinarith, by nlinarith, ?_⟩
  by_contra long
  nlinarith

theorem least_le_double {m e : ℤ} (digits : |m| ≤ 2 ^ 27) (normal : 2 ^ (-400 : ℤ) ≤ |(m * 2 ^ e : ℚ)|) : -1074 ≤ e + e := by
  by_contra coarse
  have unit : (2 : ℚ) ^ e ≤ 2 ^ (-538 : ℤ) := zpow_le_zpow_right₀ one_le_two (by omega)
  have digits' : |(m : ℚ)| ≤ 2 ^ (27 : ℤ) := by exact_mod_cast digits
  apply normal.not_gt
  rw [abs_mul, abs_of_pos (Binary64.unit_pos e)]
  calc |(m : ℚ)| * 2 ^ e ≤ 2 ^ (27 : ℤ) * 2 ^ (-538 : ℤ) :=
        mul_le_mul digits' unit (Binary64.unit_pos e).le (Binary64.unit_pos _).le
    _ = 2 ^ (27 + -538 : ℤ) := (zpow_add₀ two_ne_zero _ _).symm
    _ < 2 ^ (-400 : ℤ) := zpow_lt_zpow_right₀ one_lt_two (by norm_num)

/-- The sums are exact where all of their digits fit into a mantissa. -/
theorem variance_of_short {m e : ℤ} (known : exactValue? x = some (m * 2 ^ e : ℚ)) (bounded : |(m * 2 ^ e : ℚ)| ≤ 2 ^ (340 : ℤ))
    (normal : 2 ^ (-400 : ℤ) ≤ |(m * 2 ^ e : ℚ)|) (several : 2 ≤ n) (short : n * m ^ 2 ≤ 2 ^ 53) :
    exactValue? (variance (List.replicate n x)) = some 0 := by
  have nonzero : m ≠ 0 := by
    rintro rfl
    rw [Int.cast_zero, zero_mul, abs_zero] at normal
    exact absurd normal (Binary64.unit_pos _).not_ge
  obtain ⟨few, self, mantissa⟩ := bounds_of_short nonzero several short
  have fine := least_le_double mantissa normal
  have same : (m * 2 ^ e * (m * 2 ^ e) : ℚ) = ((m ^ 2 : ℤ) : ℚ) * 2 ^ (e + e) := by
    rw [zpow_add₀ two_ne_zero]
    push_cast
    ring
  have small : |((m ^ 2 : ℤ) : ℚ) * 2 ^ (e + e)| ≤ 2 ^ (680 : ℤ) := by
    rw [← same, abs_mul, (by norm_num : (680 : ℤ) = 340 + 340), zpow_add₀ two_ne_zero]
    exact mul_self_le_mul_self (abs_nonneg _) bounded
  have squares (k : ℕ) (inside : k ≤ n) : Representable (k * (((m ^ 2 : ℤ) : ℚ) * 2 ^ (e + e))) := by
    have inside' : (k : ℤ) ≤ n := by exact_mod_cast inside
    refine representable_multiple (by omega) ?_ fine small
    rw [abs_of_nonneg (by positivity)]
    exact (mul_le_mul_of_nonneg_right inside' (sq_nonneg m)).trans short
  have sums (k : ℕ) (inside : k ≤ n) : Representable (k * (m * 2 ^ e)) := by
    have inside' : (k : ℤ) ≤ n := by exact_mod_cast inside
    refine representable_multiple (by omega) ?_ (by omega) (bounded.trans (zpow_le_zpow_right₀ one_le_two (by norm_num)))
    rw [abs_mul, Nat.abs_cast]
    exact (mul_le_mul inside' self (abs_nonneg m) (by omega)).trans short
  have value := Binary64.exactValue?_mul known known
  have one := squares 1 (by omega)
  rw [Nat.cast_one, one_mul] at one
  rw [same, one] at value
  refine variance_of_exact_sums known several (by omega) value sums squares ?_
  rw [mul_assoc, same]
  exact squares n le_rfl

end Bounds

end Calculator.Sample
