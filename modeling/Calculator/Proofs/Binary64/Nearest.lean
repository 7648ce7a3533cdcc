import Mathlib

namespace Calculator.Binary64

/-- The nearest whole number, and of two nearest ones the even. -/
def nearestEven (q : ℚ) : ℤ :=
  if q - ⌊q⌋ < 1 / 2 then ⌊q⌋ else if 1 / 2 < q - ⌊q⌋ then ⌊q⌋ + 1 else ⌊q⌋ + ⌊q⌋ % 2

section NearestEven

variable {q r : ℚ}

theorem nearestEven_intCast (n : ℤ) : nearestEven n = n := by simp [nearestEven]

theorem floor_le_nearestEven (q : ℚ) : ⌊q⌋ ≤ nearestEven q := by
  unfold nearestEven
  split_ifs <;> omega

theorem nearestEven_le_floor_add_one (q : ℚ) : nearestEven q ≤ ⌊q⌋ + 1 := by
  unfold nearestEven
  split_ifs <;> omega

theorem abs_nearestEven_sub_le (q : ℚ) : |nearestEven q - q| ≤ 1 / 2 := by
  have lower := Int.floor_le q
  have upper := Int.lt_floor_add_one q
  have parity : ((⌊q⌋ % 2 : ℤ) : ℚ) = 0 ∨ ((⌊q⌋ % 2 : ℤ) : ℚ) = 1 := by
    rcases Int.emod_two_eq_zero_or_one ⌊q⌋ with even | odd
    · exact .inl (by rw [even]; rfl)
    · exact .inr (by rw [odd]; rfl)
  unfold nearestEven
  rw [abs_le]
  split_ifs <;> push_cast <;> constructor <;> rcases parity with even | odd <;> linarith

theorem nearestEven_mono (ordered : q ≤ r) : nearestEven q ≤ nearestEven r := by
  rcases (Int.floor_mono ordered).lt_or_eq with apart | together
  · have first := nearestEven_le_floor_add_one q
    have second := floor_le_nearestEven r
    omega
  · have fractions : q - ⌊q⌋ ≤ r - ⌊r⌋ := by
      rw [together]
      linarith
    rw [nearestEven, nearestEven, together] at *
    split_ifs <;> first | omega | linarith

theorem nearestEven_neg (q : ℚ) : nearestEven (-q) = -nearestEven q := by
  by_cases whole : q = ⌊q⌋
  · rw [whole, ← Int.cast_neg, nearestEven_intCast, nearestEven_intCast]
  · have below : (⌊q⌋ : ℚ) < q := lt_of_le_of_ne (Int.floor_le q) (Ne.symm whole)
    have above := Int.lt_floor_add_one q
    have mirrored : ⌊-q⌋ = -⌊q⌋ - 1 := by
      rw [Int.floor_eq_iff]
      push_cast
      constructor <;> linarith
    rw [nearestEven, nearestEven, mirrored]
    push_cast
    split_ifs <;> first | omega | linarith

theorem le_nearestEven {n : ℤ} (ordered : n ≤ q) : n ≤ nearestEven q := by
  rw [← nearestEven_intCast n]
  exact nearestEven_mono ordered

theorem nearestEven_le {n : ℤ} (ordered : q ≤ n) : nearestEven q ≤ n := by
  rw [← nearestEven_intCast n]
  exact nearestEven_mono ordered

end NearestEven

def unitExponent (q : ℚ) : ℤ := max (Int.log 2 |q| - 52) (-1074)

/-- The nearest real, as if there were no greatest one. -/
def rounded (q : ℚ) : ℚ := nearestEven (q / 2 ^ unitExponent q) * 2 ^ unitExponent q

section Rounded

variable {q r : ℚ} {n e : ℤ}

theorem unit_pos (e : ℤ) : (0 : ℚ) < 2 ^ e := zpow_pos (by norm_num) e

theorem le_unitExponent (q : ℚ) : -1074 ≤ unitExponent q := le_max_right _ _

theorem unitExponent_neg (q : ℚ) : unitExponent (-q) = unitExponent q := by
  rw [unitExponent, abs_neg, unitExponent]

theorem rounded_neg (q : ℚ) : rounded (-q) = -rounded q := by
  rw [rounded, unitExponent_neg, neg_div, nearestEven_neg, rounded]
  push_cast
  ring

theorem rounded_zero : rounded 0 = 0 := by
  have zero := nearestEven_intCast 0
  rw [Int.cast_zero] at zero
  rw [rounded, zero_div, zero, Int.cast_zero, zero_mul]

theorem lt_of_unitExponent (q : ℚ) : |q| < 2 ^ (unitExponent q + 53) := by
  have digits := Int.lt_zpow_succ_log_self (b := 2) one_lt_two |q|
  have exponent : Int.log 2 |q| - 52 ≤ unitExponent q := le_max_left _ _
  push_cast at digits
  exact digits.trans_le (zpow_le_zpow_right₀ one_le_two (by omega))

theorem le_of_unitExponent (nonzero : q ≠ 0) (normal : -1074 < unitExponent q) :
    2 ^ (unitExponent q + 52) ≤ |q| := by
  have digits := Int.zpow_log_le_self (b := 2) one_lt_two (abs_pos.mpr nonzero)
  have exponent : unitExponent q + 52 = Int.log 2 |q| := by
    unfold unitExponent at normal ⊢
    omega
  rw [exponent]
  exact_mod_cast digits

theorem unitExponent_le (nonzero : q ≠ 0) (small : |q| < 2 ^ (e + 53)) (least : -1074 ≤ e) :
    unitExponent q ≤ e := by
  by_contra coarse
  have digits := le_of_unitExponent nonzero (by omega)
  have powers : (2 : ℚ) ^ (e + 53) ≤ 2 ^ (unitExponent q + 52) := zpow_le_zpow_right₀ one_le_two (by omega)
  linarith

theorem unitExponent_mono (nonzero : q ≠ 0) (ordered : |q| ≤ |r|) : unitExponent q ≤ unitExponent r :=
  unitExponent_le nonzero (ordered.trans_lt (lt_of_unitExponent r)) (le_unitExponent r)

theorem multiple_div_unit {u : ℤ} (n : ℤ) (coarse : u ≤ e) : ∃ m : ℤ, n * 2 ^ e / 2 ^ u = (m : ℚ) := by
  obtain ⟨k, rfl⟩ := Int.exists_add_of_le coarse
  refine ⟨n * 2 ^ k, ?_⟩
  rw [div_eq_iff (unit_pos u).ne', zpow_add₀ (by norm_num)]
  push_cast
  rw [zpow_natCast]
  ring

theorem rounded_le_multiple (ordered : q ≤ n * 2 ^ e) (coarse : unitExponent q ≤ e) :
    rounded q ≤ n * 2 ^ e := by
  have unit := unit_pos (unitExponent q)
  obtain ⟨m, units⟩ := multiple_div_unit n coarse
  have near : nearestEven (q / 2 ^ unitExponent q) ≤ m := by
    apply nearestEven_le
    rw [← units]
    exact div_le_div_of_nonneg_right ordered unit.le
  rw [rounded, ← le_div_iff₀ unit, units]
  exact_mod_cast near

theorem multiple_le_rounded (ordered : n * 2 ^ e ≤ q) (coarse : unitExponent q ≤ e) :
    n * 2 ^ e ≤ rounded q := by
  have mirrored := rounded_le_multiple (q := -q) (n := -n) (e := e) (by push_cast; linarith)
    (by rwa [unitExponent_neg])
  rw [rounded_neg] at mirrored
  push_cast at mirrored
  linarith

/-- A multiple of its unit is a real itself. -/
theorem rounded_of_multiple (multiple : q = n * 2 ^ e) (coarse : unitExponent q ≤ e) : rounded q = q := by
  have above := rounded_le_multiple multiple.le coarse
  have below := multiple_le_rounded multiple.ge coarse
  rw [multiple] at above below ⊢
  exact le_antisymm above below

theorem rounded_of_short (short : |n| ≤ 2 ^ 53) (least : -1074 ≤ e) : rounded (n * 2 ^ e) = n * 2 ^ e := by
  have unit := unit_pos e
  have full : (2 : ℚ) ^ (e + 53) = 2 ^ 53 * 2 ^ e := by rw [zpow_add₀ (by norm_num), mul_comm]; rfl
  have magnitude : |(n * 2 ^ e : ℚ)| = |(n : ℚ)| * 2 ^ e := by rw [abs_mul, abs_of_pos unit]
  by_cases zero : n = 0
  · rw [zero, Int.cast_zero, zero_mul, rounded_zero]
  have nonzero : (n * 2 ^ e : ℚ) ≠ 0 := mul_ne_zero (by exact_mod_cast zero) unit.ne'
  rcases short.lt_or_eq with below | exact
  · refine rounded_of_multiple rfl (unitExponent_le nonzero ?_ least)
    rw [magnitude, full]
    exact mul_lt_mul_of_pos_right (by exact_mod_cast below) unit
  · -- the power of two has the unit of the numbers above it
    have sign : ∃ s : ℤ, n = s * 2 ^ 53 := by
      rcases abs_eq (by norm_num) |>.mp exact with rfl | rfl
      · exact ⟨1, by norm_num⟩
      · exact ⟨-1, by norm_num⟩
    obtain ⟨s, split⟩ := sign
    have multiple : (n * 2 ^ e : ℚ) = s * 2 ^ (e + 53) := by
      rw [full, split]
      push_cast
      ring
    refine rounded_of_multiple multiple (unitExponent_le nonzero ?_ (by omega))
    have power : |(n : ℚ)| = 2 ^ 53 := by exact_mod_cast exact
    rw [magnitude, power, ← full]
    exact zpow_lt_zpow_right₀ one_lt_two (by omega)

theorem rounded_intCast (short : |n| ≤ 2 ^ 53) : rounded n = n := by
  have known := rounded_of_short (e := 0) short (by decide)
  rwa [zpow_zero, mul_one] at known

theorem rounded_twoPow (least : -1074 ≤ e) : rounded (2 ^ e) = 2 ^ e := by
  have known := rounded_of_short (n := 1) (by norm_num) least
  rwa [Int.cast_one, one_mul] at known

theorem rounded_nonneg (sign : 0 ≤ q) : 0 ≤ rounded q := by
  have known := multiple_le_rounded (q := q) (n := 0) (by rw [Int.cast_zero, zero_mul]; exact sign) le_rfl
  rwa [Int.cast_zero, zero_mul] at known

theorem rounded_mono_of_pos (positive : 0 < q) (ordered : q ≤ r) : rounded q ≤ rounded r := by
  have magnitudes : |q| ≤ |r| := by rwa [abs_of_pos positive, abs_of_pos (positive.trans_le ordered)]
  rcases (unitExponent_mono positive.ne' magnitudes).lt_or_eq with finer | same
  · -- the least number with the unit of `r` lies between
    have between : 2 ^ (unitExponent r + 52) ≤ |r| :=
      le_of_unitExponent (positive.trans_le ordered).ne' ((le_unitExponent q).trans_lt finer)
    have power : ((1 : ℤ) : ℚ) * 2 ^ (unitExponent r + 52) = 2 ^ (unitExponent r + 52) := by simp
    have below : rounded q ≤ (1 : ℤ) * 2 ^ (unitExponent r + 52) := by
      refine rounded_le_multiple ?_ (by omega)
      have digits := lt_of_unitExponent q
      rw [abs_of_pos positive] at digits
      rw [power]
      exact digits.le.trans (zpow_le_zpow_right₀ one_le_two (by omega))
    have above : (1 : ℤ) * 2 ^ (unitExponent r + 52) ≤ rounded r := by
      refine multiple_le_rounded ?_ (by omega)
      rw [abs_of_pos (positive.trans_le ordered)] at between
      rwa [power]
    exact below.trans above
  · have unit := unit_pos (unitExponent r)
    rw [rounded, same, rounded]
    refine mul_le_mul_of_nonneg_right ?_ unit.le
    exact_mod_cast nearestEven_mono (div_le_div_of_nonneg_right ordered unit.le)

theorem rounded_mono (ordered : q ≤ r) : rounded q ≤ rounded r := by
  rcases lt_or_ge 0 q with positive | nonpositive
  · exact rounded_mono_of_pos positive ordered
  have left : rounded q ≤ 0 := by
    have mirrored := rounded_nonneg (neg_nonneg.mpr nonpositive)
    rw [rounded_neg] at mirrored
    linarith
  rcases lt_or_ge r 0 with negative | nonnegative
  · have mirrored := rounded_mono_of_pos (neg_pos.mpr negative) (neg_le_neg ordered)
    rw [rounded_neg, rounded_neg] at mirrored
    linarith
  · exact left.trans (rounded_nonneg nonnegative)

theorem abs_rounded (q : ℚ) : |rounded q| = rounded |q| := by
  rcases le_total 0 q with nonnegative | nonpositive
  · rw [abs_of_nonneg nonnegative, abs_of_nonneg (rounded_nonneg nonnegative)]
  · have mirrored := rounded_nonneg (neg_nonneg.mpr nonpositive)
    rw [abs_of_nonpos nonpositive, rounded_neg, abs_of_nonpos]
    rw [rounded_neg] at mirrored
    linarith

theorem abs_rounded_le (least : -1074 ≤ e) (small : |q| ≤ 2 ^ e) : |rounded q| ≤ 2 ^ e := by
  rw [abs_rounded, ← rounded_twoPow least]
  exact rounded_mono small

theorem le_abs_rounded (least : -1074 ≤ e) (large : 2 ^ e ≤ |q|) : 2 ^ e ≤ |rounded q| := by
  rw [abs_rounded, ← rounded_twoPow least]
  exact rounded_mono large

theorem abs_rounded_sub_le (q : ℚ) : |rounded q - q| ≤ 2 ^ unitExponent q / 2 := by
  have unit := unit_pos (unitExponent q)
  have near := abs_nearestEven_sub_le (q / 2 ^ unitExponent q)
  have scaled : rounded q - q =
      (nearestEven (q / 2 ^ unitExponent q) - q / 2 ^ unitExponent q) * 2 ^ unitExponent q := by
    rw [sub_mul, div_mul_cancel₀ _ unit.ne', rounded]
  rw [scaled, abs_mul, abs_of_pos unit]
  linarith [mul_le_mul_of_nonneg_right near unit.le]

end Rounded

def nearestReal? (q : ℚ) : Option ℚ := if |rounded q| < 2 ^ 1024 then some (rounded q) else none

theorem nearestReal?_of_abs_le {q : ℚ} {e : ℤ} (small : |q| ≤ 2 ^ e) (least : -1074 ≤ e) (most : e < 1024) :
    nearestReal? q = some (rounded q) := by
  have power : (2 : ℚ) ^ e < 2 ^ 1024 := (zpow_lt_zpow_right₀ one_lt_two most).trans_eq (zpow_natCast 2 1024)
  rw [nearestReal?, if_pos ((abs_rounded_le least small).trans_lt power)]

end Calculator.Binary64
