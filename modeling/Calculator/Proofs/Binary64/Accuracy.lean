import Calculator.Proofs.Binary64.Comparison
import Calculator.Proofs.Binary64.Numbers

namespace Calculator.Binary64

variable {x y : Float} {q : ℚ} {v w δ ε κ M : ℝ}

/-- The greatest error of rounding, in proportion to the number. -/
noncomputable def roundoff : ℝ := 1 / 2 ^ 53

theorem roundoff_eq : roundoff = 1 / 2 ^ 53 := rfl

theorem roundoff_pos : 0 < roundoff := by
  unfold roundoff
  positivity

section Rounding

theorem abs_rounded_sub_le_mul {m : ℚ} (small : |q| ≤ m) (normal : 2 ^ (-1022 : ℤ) ≤ m) :
    |rounded q - q| ≤ m / 2 ^ 53 := by
  have error := abs_rounded_sub_le q
  rcases eq_or_ne q 0 with rfl | nonzero
  · rw [rounded_zero, sub_zero, abs_zero]
    exact div_nonneg ((unit_pos _).le.trans normal) (by norm_num)
  suffices unit : 2 ^ (unitExponent q + 52) ≤ m by
    rw [zpow_add₀ two_ne_zero] at unit
    have digits : (2 : ℚ) ^ (52 : ℤ) = 2 ^ 52 := rfl
    rw [digits] at unit
    rw [le_div_iff₀ (by norm_num)]
    linarith
  rcases (le_unitExponent q).eq_or_lt with least | above
  · rwa [← least]
  · exact (le_of_unitExponent nonzero above).trans small

structure InRange (M : ℝ) : Prop where
  normal : 2 ^ (-1022 : ℤ) ≤ M
  finite : M ≤ 2 ^ (1023 : ℤ)

theorem inRange_of_le (least : 1 / 2 ^ 100 ≤ M) (most : M ≤ 2 ^ 100) : InRange M where
  normal := by
    refine le_trans ?_ least
    rw [one_div, ← zpow_natCast, ← zpow_neg]
    exact zpow_le_zpow_right₀ one_le_two (by norm_num)
  finite := by
    refine most.trans ?_
    rw [← zpow_natCast]
    exact zpow_le_zpow_right₀ one_le_two (by norm_num)

theorem inRange_of_exp_le (lower : Real.exp (-700) ≤ M) (upper : M ≤ Real.exp 700) : InRange M where
  normal := by
    refine le_trans ?_ lower
    rw [← Real.log_le_iff_le_exp (zpow_pos two_pos _), Real.log_zpow]
    push_cast
    linarith [Real.log_two_gt_d9]
  finite := by
    refine upper.trans ?_
    rw [← Real.le_log_iff_exp_le (zpow_pos two_pos _), Real.log_zpow]
    push_cast
    linarith [Real.log_two_gt_d9]

theorem abs_rounded_sub_le_roundoff (small : |(q : ℝ)| ≤ M) (normal : 2 ^ (-1022 : ℤ) ≤ M) :
    |((rounded q : ℚ) : ℝ) - q| ≤ roundoff * M := by
  have error : |rounded q - q| ≤ max |q| (2 ^ (-1022 : ℤ)) / 2 ^ 53 :=
    abs_rounded_sub_le_mul (le_max_left _ _) (le_max_right _ _)
  have cast : ((|rounded q - q| : ℚ) : ℝ) ≤ (max |q| (2 ^ (-1022 : ℤ)) / 2 ^ 53 : ℚ) := Rat.cast_le.mpr error
  rw [Rat.cast_abs, Rat.cast_sub, Rat.cast_div, Rat.cast_max, Rat.cast_abs, Rat.cast_zpow, Rat.cast_pow,
    Rat.cast_ofNat] at cast
  refine cast.trans ?_
  rw [div_eq_inv_mul, ← one_div]
  exact mul_le_mul_of_nonneg_left (max_le small normal) roundoff_pos.le

theorem eq_rounded {p : ℚ} (rounds : nearestReal? q = some p) : p = rounded q := by
  unfold nearestReal? at rounds
  split at rounds
  · exact (Option.some.inj rounds).symm
  · cases rounds

theorem nearestReal?_of_abs_lt (small : |q| < 2 ^ 1024 - 2 ^ 970) : nearestReal? q = some (rounded q) := by
  rcases eq_or_ne q 0 with rfl | nonzero
  · rw [nearestReal?_zero, rounded_zero]
  have unit : unitExponent q ≤ 971 := by
    refine unitExponent_le nonzero (small.trans ?_) (by decide)
    exact (sub_lt_self _ (by positivity)).trans_eq (zpow_natCast 2 1024).symm
  have half : (2 : ℚ) ^ unitExponent q ≤ 2 ^ 970 * 2 :=
    (zpow_le_zpow_right₀ one_le_two unit).trans_eq ((zpow_natCast 2 971).trans (pow_succ 2 970))
  have error := abs_rounded_sub_le q
  have triangle := abs_sub_abs_le_abs_sub (rounded q) q
  rw [nearestReal?, if_pos]
  generalize (2 : ℚ) ^ 1024 = limit at small ⊢
  generalize (2 : ℚ) ^ 970 = unit at small half
  linarith

theorem le_greatest (known : exactValue? x = some q) : q ≤ 2 ^ 1024 - 2 ^ 971 := by
  have split : (2 : ℚ) ^ 1024 - 2 ^ 971 = (2 ^ 53 - 1) * 2 ^ 971 := by
    rw [sub_one_mul, ← pow_add]
  rw [split]
  rcases exactValue?_cases known with ⟨-, -, rfl⟩ | ⟨s, m, k, -, -, canonical, rfl⟩
  · exact mul_nonneg (by norm_num) (by positivity)
  · have digits : (m : ℚ) ≤ 2 ^ 53 - 1 := by exact_mod_cast Int.le_sub_one_of_lt (Nat.cast_lt.mpr canonical.mantissa_lt)
    have unit := unit_pos k
    have power : (2 : ℚ) ^ k ≤ 2 ^ 971 :=
      (zpow_le_zpow_right₀ one_le_two canonical.exponent_le).trans_eq (zpow_natCast 2 971)
    calc ((s.apply m : ℤ) : ℚ) * 2 ^ k ≤ m * 2 ^ k := by
          cases s with
          | positive => rw [apply_positive]
          | negative =>
            rw [apply_negative]
            exact mul_le_mul_of_nonneg_right (by linarith [Nat.cast_nonneg (α := ℚ) m]) unit.le
      _ ≤ (2 ^ 53 - 1) * 2 ^ 971 := mul_le_mul digits power unit.le (by norm_num)

theorem nearestReal?_of_inRange (small : |(q : ℝ)| ≤ M) (range : InRange M) : nearestReal? q = some (rounded q) := by
  refine nearestReal?_of_abs_le (e := 1023) ?_ (by norm_num) (by norm_num)
  exact_mod_cast small.trans range.finite

end Rounding

section Absolute

def Near (x : Float) (v δ : ℝ) : Prop := ∃ q, exactValue? x = some q ∧ |(q : ℝ) - v| ≤ δ

theorem near_of_exactValue? (known : exactValue? x = some q) : Near x q 0 := ⟨q, known, by simp⟩

theorem Near.mono (near : Near x v δ) (wider : δ ≤ ε) : Near x v ε := by
  obtain ⟨q, known, close⟩ := near
  exact ⟨q, known, close.trans wider⟩

theorem Near.trans (near : Near x v δ) (close : |v - w| ≤ ε) : Near x w (δ + ε) := by
  obtain ⟨q, known, error⟩ := near
  exact ⟨q, known, (abs_sub_le _ v _).trans (add_le_add error close)⟩

theorem near_of_nearest (rounds : exactValue? x = nearestReal? q) (close : |(q : ℝ) - v| ≤ δ)
    (bound : |v| + δ ≤ M) (range : InRange M) : Near x v (δ + roundoff * M) := by
  have small : |(q : ℝ)| ≤ M := by
    have apart := abs_sub_abs_le_abs_sub (q : ℝ) v
    linarith
  rw [nearestReal?_of_inRange small range] at rounds
  refine ⟨_, rounds, ?_⟩
  calc |((rounded q : ℚ) : ℝ) - v| ≤ |((rounded q : ℚ) : ℝ) - q| + |(q : ℝ) - v| := abs_sub_le _ _ _
    _ ≤ roundoff * M + δ := add_le_add (abs_rounded_sub_le_roundoff small range.normal) close
    _ = δ + roundoff * M := add_comm _ _

section Operations

variable (left : Near x v δ) (right : Near y w ε) (range : InRange M)
include left range

include right in
theorem Near.add (bound : |v + w| + (δ + ε) ≤ M) : Near (x + y) (v + w) (δ + ε + roundoff * M) := by
  obtain ⟨a, knownX, closeX⟩ := left
  obtain ⟨b, knownY, closeY⟩ := right
  refine near_of_nearest (exactValue?_add knownX knownY) ?_ bound range
  push_cast
  rw [add_sub_add_comm]
  exact (abs_add_le _ _).trans (add_le_add closeX closeY)

include right in
theorem Near.sub (bound : |v - w| + (δ + ε) ≤ M) : Near (x - y) (v - w) (δ + ε + roundoff * M) := by
  obtain ⟨a, knownX, closeX⟩ := left
  obtain ⟨b, knownY, closeY⟩ := right
  refine near_of_nearest (exactValue?_sub knownX knownY) ?_ bound range
  push_cast
  rw [sub_sub_sub_comm]
  exact (abs_sub _ _).trans (add_le_add closeX closeY)

include right in
theorem Near.mul (errors : |v| * ε + |w| * δ + δ * ε ≤ κ) (bound : |v * w| + κ ≤ M) :
    Near (x * y) (v * w) (κ + roundoff * M) := by
  obtain ⟨a, knownX, closeX⟩ := left
  obtain ⟨b, knownY, closeY⟩ := right
  refine near_of_nearest (exactValue?_mul knownX knownY) ?_ bound range
  push_cast
  have split : (a * b - v * w : ℝ) = v * (b - w) + w * (a - v) + (a - v) * (b - w) := by ring
  refine le_trans ?_ errors
  rw [split]
  refine (abs_add_three _ _ _).trans ?_
  rw [abs_mul, abs_mul, abs_mul]
  have nonnegative := (abs_nonneg _).trans closeX
  gcongr

theorem Near.div {d : ℚ} (divisor : exactValue? y = some d) (positive : 0 < d) (bound : |v / d| + δ / d ≤ M) :
    Near (x / y) (v / d) (δ / d + roundoff * M) := by
  obtain ⟨a, known, close⟩ := left
  have above : (0 : ℝ) < d := by exact_mod_cast positive
  refine near_of_nearest (exactValue?_div known divisor positive.ne') ?_ bound range
  push_cast
  rw [← sub_div, abs_div, abs_of_pos above]
  gcongr

end Operations

theorem Near.div_natCast {n : ℕ} (near : Near x (n * v) (n * δ)) (range : InRange M)
    (divisor : exactValue? y = some (n : ℚ)) (positive : 0 < n) (bound : |v| + δ ≤ M) :
    Near (x / y) v (δ + roundoff * M) := by
  have nonzero : (n : ℝ) ≠ 0 := by exact_mod_cast positive.ne'
  have cast : ((n : ℚ) : ℝ) = n := Rat.cast_natCast n
  have quotient := near.div (M := M) range divisor (by exact_mod_cast positive)
    (by rwa [cast, mul_div_cancel_left₀ _ nonzero, mul_div_cancel_left₀ _ nonzero])
  rwa [cast, mul_div_cancel_left₀ _ nonzero, mul_div_cancel_left₀ _ nonzero] at quotient

theorem Near.div_near {least : ℝ} (left : Near x v δ) (right : Near y w ε) (range : InRange M) (positive : 0 < least)
    (above : least ≤ w - ε) (errors : (δ + |v / w| * ε) / least ≤ κ) (bound : |v / w| + κ ≤ M) :
    Near (x / y) (v / w) (κ + roundoff * M) := by
  obtain ⟨a, knownX, closeX⟩ := left
  obtain ⟨b, knownY, closeY⟩ := right
  have lower := (abs_le.mp closeY).1
  have nonnegative := (abs_nonneg _).trans closeY
  have divisor : least ≤ b := by linarith
  have nonzero : (b : ℝ) ≠ 0 := (positive.trans_le divisor).ne'
  have nonzero' : w ≠ 0 := (positive.trans_le (by linarith)).ne'
  refine near_of_nearest (exactValue?_div knownX knownY (by exact_mod_cast nonzero)) ?_ bound range
  push_cast
  have split : (a / b - v / w : ℝ) = (a - v - v / w * (b - w)) / b := by
    field_simp
    ring
  refine le_trans ?_ errors
  rw [split, abs_div, abs_of_pos (positive.trans_le divisor)]
  have numerator : |(a - v - v / w * (b - w) : ℝ)| ≤ δ + |v / w| * ε := by
    refine (abs_sub _ _).trans (add_le_add closeX ?_)
    rw [abs_mul]
    gcongr
  gcongr
  exact (abs_nonneg _).trans numerator

theorem Near.neg (near : Near x v δ) : Near (-x) (-v) δ := by
  obtain ⟨q, known, close⟩ := near
  refine ⟨-q, exactValue?_neg known, ?_⟩
  push_cast
  rwa [neg_sub_neg, abs_sub_comm]

end Absolute

section Proportion

def LogNear (x : Float) (v ε : ℝ) : Prop := ∃ q, exactValue? x = some q ∧ 0 < q ∧ |Real.log q - v| ≤ ε

theorem LogNear.mono (near : LogNear x v δ) (wider : δ ≤ ε) : LogNear x v ε := by
  obtain ⟨q, known, positive, close⟩ := near
  exact ⟨q, known, positive, close.trans wider⟩

theorem LogNear.trans (near : LogNear x v δ) (close : |v - w| ≤ ε) : LogNear x w (δ + ε) := by
  obtain ⟨q, known, positive, error⟩ := near
  exact ⟨q, known, positive, (abs_sub_le _ v _).trans (add_le_add error close)⟩

theorem abs_sub_exp_le {a : ℝ} (positive : 0 < a) (close : |Real.log a - v| ≤ δ) (small : δ ≤ 1) :
    |a - Real.exp v| ≤ (δ + δ ^ 2) * Real.exp v := by
  have split : a - Real.exp v = (Real.exp (Real.log a - v) - 1) * Real.exp v := by
    rw [sub_mul, ← Real.exp_add, sub_add_cancel, Real.exp_log positive, one_mul]
  have bound := Real.abs_exp_sub_one_sub_id_le (close.trans small)
  have triangle := abs_sub_le (Real.exp (Real.log a - v) - 1) (Real.log a - v) 0
  rw [sub_zero, sub_zero] at triangle
  have square : (Real.log a - v) ^ 2 ≤ δ ^ 2 := sq_le_sq' (abs_le.mp close).1 (abs_le.mp close).2
  rw [split, abs_mul, Real.abs_exp]
  exact mul_le_mul_of_nonneg_right (by linarith) (Real.exp_pos v).le

theorem LogNear.near (logNear : LogNear x v δ) (small : δ ≤ 1) : Near x (Real.exp v) ((δ + δ ^ 2) * Real.exp v) := by
  obtain ⟨q, known, positive, close⟩ := logNear
  exact ⟨q, known, abs_sub_exp_le (Rat.cast_pos.mpr positive) close small⟩

theorem logNear_of_exactValue? (known : exactValue? x = some q) (positive : 0 < q) : LogNear x (Real.log q) 0 :=
  ⟨q, known, positive, by simp⟩

theorem abs_log_sub_log_le {a b : ℝ} (positive : 0 < b) (small : δ ≤ 1 / 2) (close : |a - b| ≤ δ * b) :
    0 < a ∧ |Real.log a - Real.log b| ≤ δ + 2 * δ ^ 2 := by
  obtain ⟨lower, upper⟩ := abs_le.mp close
  have above : 0 < a := by nlinarith
  have least : 1 - δ ≤ a / b := by
    rw [le_div_iff₀ positive]
    linarith
  have most : a / b ≤ 1 + δ := by
    rw [div_le_iff₀ positive]
    linarith
  have proportion : 0 < a / b := div_pos above positive
  refine ⟨above, ?_⟩
  rw [← Real.log_div above.ne' positive.ne', abs_le]
  constructor
  · have inverse : (a / b)⁻¹ ≤ 1 + δ + 2 * δ ^ 2 := by
      rw [inv_le_iff_one_le_mul₀ proportion]
      nlinarith [sq_nonneg δ]
    linarith [Real.one_sub_inv_le_log_of_pos proportion]
  · nlinarith [Real.log_le_sub_one_of_pos proportion, sq_nonneg δ]

theorem roundoff_lt : roundoff < 1 / 2 ^ 52 := by
  unfold roundoff
  norm_num

theorem abs_log_rounded_sub_le (normal : 2 ^ (-1022 : ℤ) ≤ q) :
    0 < rounded q ∧ |Real.log (rounded q : ℚ) - Real.log q| ≤ 2 * roundoff := by
  have positive : 0 < q := (unit_pos _).trans_le normal
  have normal' : 2 ^ (-1022 : ℤ) ≤ (q : ℝ) := by
    have cast := Rat.cast_le (K := ℝ) |>.mpr normal
    rwa [Rat.cast_zpow, Rat.cast_ofNat] at cast
  have error := abs_rounded_sub_le_roundoff (abs_of_pos (Rat.cast_pos.mpr positive)).le normal'
  obtain ⟨above, close⟩ := abs_log_sub_log_le (Rat.cast_pos.mpr positive) (by linarith [roundoff_lt]) error
  refine ⟨Rat.cast_pos.mp above, close.trans ?_⟩
  nlinarith [roundoff_lt, roundoff_pos]

theorem two_pow_le_of_log (above : -708 ≤ Real.log q) (positive : 0 < q) : 2 ^ (-1022 : ℤ) ≤ q := by
  have least : Real.log ((2 : ℝ) ^ (-1022 : ℤ)) ≤ Real.log q := by
    rw [Real.log_zpow]
    push_cast
    linarith [Real.log_two_gt_d9]
  have cast := (Real.log_le_log_iff (zpow_pos two_pos _) (Rat.cast_pos.mpr positive)).mp least
  rw [← Rat.cast_le (K := ℝ), Rat.cast_zpow, Rat.cast_ofNat]
  exact cast

theorem LogNear.of_nearest (rounds : exactValue? x = nearestReal? q) (finite : x.isFinite = true) (positive : 0 < q)
    (close : |Real.log q - v| ≤ δ) (normal : -708 ≤ v - δ) : LogNear x v (δ + 2 * roundoff) := by
  obtain ⟨r, known⟩ := isFinite_iff_exactValue?.mp finite
  rw [eq_rounded (rounds.symm.trans known)] at known
  have least : 2 ^ (-1022 : ℤ) ≤ q := by
    refine two_pow_le_of_log ?_ positive
    have lower := (abs_le.mp close).1
    linarith
  obtain ⟨above, error⟩ := abs_log_rounded_sub_le least
  exact ⟨_, known, above, (abs_sub_le _ _ _).trans (le_of_le_of_eq (add_le_add error close) (add_comm _ _))⟩

theorem isFinite_of_log (rounds : exactValue? x = nearestReal? q) (positive : 0 < q) (small : Real.log q ≤ 708) :
    x.isFinite = true := by
  have most : Real.log q ≤ Real.log ((2 : ℝ) ^ (1023 : ℤ)) := by
    rw [Real.log_zpow]
    push_cast
    linarith [Real.log_two_gt_d9]
  have bound := (Real.log_le_log_iff (Rat.cast_pos.mpr positive) (zpow_pos two_pos _)).mp most
  rw [nearestReal?_of_inRange (M := 2 ^ (1023 : ℤ)) (by rwa [abs_of_pos (Rat.cast_pos.mpr positive)])
    ⟨zpow_le_zpow_right₀ one_le_two (by norm_num), le_rfl⟩] at rounds
  exact isFinite_iff_exactValue?.mpr ⟨_, rounds⟩

section Operations

variable (left : LogNear x v δ) (right : LogNear y w ε)
include left right

theorem LogNear.isFinite_mul (small : v + w + (δ + ε) ≤ 708) : (x * y).isFinite = true := by
  obtain ⟨a, knownX, positiveX, closeX⟩ := left
  obtain ⟨b, knownY, positiveY, closeY⟩ := right
  refine isFinite_of_log (exactValue?_mul knownX knownY) (mul_pos positiveX positiveY) ?_
  push_cast
  rw [Real.log_mul (by exact_mod_cast positiveX.ne') (by exact_mod_cast positiveY.ne')]
  linarith [(abs_le.mp closeX).2, (abs_le.mp closeY).2]

theorem LogNear.isFinite_div (small : v - w + (δ + ε) ≤ 708) : (x / y).isFinite = true := by
  obtain ⟨a, knownX, positiveX, closeX⟩ := left
  obtain ⟨b, knownY, positiveY, closeY⟩ := right
  refine isFinite_of_log (exactValue?_div knownX knownY positiveY.ne') (div_pos positiveX positiveY) ?_
  push_cast
  rw [Real.log_div (by exact_mod_cast positiveX.ne') (by exact_mod_cast positiveY.ne')]
  linarith [(abs_le.mp closeX).2, (abs_le.mp closeY).1]

theorem LogNear.mul (finite : (x * y).isFinite = true) (normal : -708 ≤ v + w - (δ + ε)) :
    LogNear (x * y) (v + w) (δ + ε + 2 * roundoff) := by
  obtain ⟨a, knownX, positiveX, closeX⟩ := left
  obtain ⟨b, knownY, positiveY, closeY⟩ := right
  refine LogNear.of_nearest (exactValue?_mul knownX knownY) finite (mul_pos positiveX positiveY) ?_ normal
  push_cast
  rw [Real.log_mul (by exact_mod_cast positiveX.ne') (by exact_mod_cast positiveY.ne'), add_sub_add_comm]
  exact (abs_add_le _ _).trans (add_le_add closeX closeY)

theorem LogNear.div (finite : (x / y).isFinite = true) (normal : -708 ≤ v - w - (δ + ε)) :
    LogNear (x / y) (v - w) (δ + ε + 2 * roundoff) := by
  obtain ⟨a, knownX, positiveX, closeX⟩ := left
  obtain ⟨b, knownY, positiveY, closeY⟩ := right
  refine LogNear.of_nearest (exactValue?_div knownX knownY positiveY.ne') finite (div_pos positiveX positiveY) ?_
    normal
  push_cast
  rw [Real.log_div (by exact_mod_cast positiveX.ne') (by exact_mod_cast positiveY.ne'), sub_sub_sub_comm]
  exact (abs_sub _ _).trans (add_le_add closeX closeY)

end Operations

end Proportion

end Calculator.Binary64
