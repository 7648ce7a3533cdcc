import Calculator.Proofs.Binary64.Remainder
import Calculator.Proofs.Binary64.Values

namespace Calculator.Binary64

open Float.Model.UnpackedFloat (Sign)

variable {x y : Float} {q a b : ℚ} {i j k l m n : ℤ}

def Between (least greatest : ℤ) (x : Float) : Prop := ∃ q, exactValue? x = some q ∧ (least : ℚ) ≤ q ∧ q ≤ greatest

instance : Decidable (Between i j x) := inferInstanceAs (Decidable (∃ q ∈ exactValue? x, (i : ℚ) ≤ q ∧ q ≤ j))

section Operations

theorem between_of_nearest (rounds : exactValue? x = nearestReal? q) (lower : i ≤ q) (upper : q ≤ j)
    (short : |i| ≤ 2 ^ 53) (short' : |j| ≤ 2 ^ 53) : Between i j x := by
  have bound : Representable ((max |i| |j| : ℤ) : ℚ) :=
    nearestReal?_of_short (by rw [abs_of_nonneg (le_max_of_le_left (abs_nonneg i))]; exact max_le short short')
  have small : |q| ≤ ((max |i| |j| : ℤ) : ℚ) := by
    push_cast
    exact abs_le_max_abs_abs lower upper
  refine ⟨rounded q, rounds.trans (bound.nearestReal?_of_abs_le small), ?_, ?_⟩
  · rw [← rounded_intCast short]
    exact rounded_mono lower
  · rw [← rounded_intCast short']
    exact rounded_mono upper

theorem Between.mono (inside : Between i j x) (lower : k ≤ i) (upper : j ≤ l) : Between k l x := by
  obtain ⟨q, known, least, greatest⟩ := inside
  exact ⟨q, known, (Int.cast_le.mpr lower).trans least, greatest.trans (Int.cast_le.mpr upper)⟩

theorem between_of_toInt? (whole : toInt? x = some m) : Between m m x :=
  ⟨m, toInt?_eq_some_iff.mp whole, le_rfl, le_rfl⟩

theorem Between.add (left : Between i j x) (right : Between k l y) (short : |i + k| ≤ 2 ^ 53)
    (short' : |j + l| ≤ 2 ^ 53) : Between (i + k) (j + l) (x + y) := by
  obtain ⟨a, knownX, leastX, greatestX⟩ := left
  obtain ⟨b, knownY, leastY, greatestY⟩ := right
  refine between_of_nearest (exactValue?_add knownX knownY) ?_ ?_ short short'
  · push_cast
    exact add_le_add leastX leastY
  · push_cast
    exact add_le_add greatestX greatestY

theorem Between.sub (left : Between i j x) (right : Between k l y) (short : |i - l| ≤ 2 ^ 53)
    (short' : |j - k| ≤ 2 ^ 53) : Between (i - l) (j - k) (x - y) := by
  obtain ⟨a, knownX, leastX, greatestX⟩ := left
  obtain ⟨b, knownY, leastY, greatestY⟩ := right
  refine between_of_nearest (exactValue?_sub knownX knownY) ?_ ?_ short short'
  · push_cast
    exact sub_le_sub leastX greatestY
  · push_cast
    exact sub_le_sub greatestX leastY

theorem Between.neg (inside : Between (-m) m x) : Between (-m) m (-x) := by
  obtain ⟨q, known, least, greatest⟩ := inside
  push_cast at least
  refine ⟨-q, exactValue?_neg known, ?_, by linarith⟩
  push_cast
  linarith

theorem between_neg_iff : Between (-m) m x ↔ ∃ q, exactValue? x = some q ∧ |q| ≤ m := by
  simp only [Between, abs_le, Int.cast_neg]

theorem Between.mul (left : Between (-m) m x) (right : Between (-n) n y) (short : |m * n| ≤ 2 ^ 53) :
    Between (-(m * n)) (m * n) (x * y) := by
  obtain ⟨a, knownX, smallX⟩ := between_neg_iff.mp left
  obtain ⟨b, knownY, smallY⟩ := between_neg_iff.mp right
  have small : |a * b| ≤ m * n := by
    rw [abs_mul]
    exact mul_le_mul smallX smallY (abs_nonneg b) ((abs_nonneg a).trans smallX)
  obtain ⟨lower, upper⟩ := abs_le.mp small
  refine between_of_nearest (exactValue?_mul knownX knownY) ?_ ?_ (by rwa [abs_neg]) short
  · push_cast
    exact lower
  · push_cast
    exact upper

theorem Between.div (left : Between (-(m * n)) (m * n) x) (right : toInt? y = some n) (positive : 0 < n)
    (short : |m| ≤ 2 ^ 53) : Between (-m) m (x / y) := by
  obtain ⟨a, known, small⟩ := between_neg_iff.mp left
  have divisor : (0 : ℚ) < n := by exact_mod_cast positive
  have quotient : |a / n| ≤ m := by
    rw [abs_div, abs_of_pos divisor, div_le_iff₀ divisor]
    exact_mod_cast small
  obtain ⟨lower, upper⟩ := abs_le.mp quotient
  refine between_of_nearest (exactValue?_div known (toInt?_eq_some_iff.mp right) divisor.ne') ?_ upper
    (by rwa [abs_neg]) short
  push_cast
  exact lower

theorem Between.split_gt (inside : Between i j x) (whole : toInt? y = some m) :
    if x > y then Between m j x else Between i m x := by
  obtain ⟨q, known, least, greatest⟩ := inside
  have compared := lt_iff_value_lt (toInt?_eq_some_iff.mp whole) known
  split
  · rename_i above
    exact ⟨q, known, (compared.mp above).le, greatest⟩
  · rename_i below
    exact ⟨q, known, least, not_lt.mp (compared.not.mp below)⟩

theorem Between.split_ge (inside : Between i j x) (whole : toInt? y = some m) :
    if x ≥ y then Between m j x else Between i m x := by
  obtain ⟨q, known, least, greatest⟩ := inside
  have compared := le_iff_value_le (toInt?_eq_some_iff.mp whole) known
  split
  · rename_i above
    exact ⟨q, known, compared.mp above, greatest⟩
  · rename_i below
    exact ⟨q, known, least, (not_le.mp (compared.not.mp below)).le⟩

end Operations

section Rounding

def halfAway (q : ℚ) : ℤ := if 0 ≤ q then ⌊q + 1 / 2⌋ else -⌊-q + 1 / 2⌋

theorem floor_add_half_bounds (lower : i ≤ q) (upper : q ≤ j) : i ≤ ⌊q + 1 / 2⌋ ∧ ⌊q + 1 / 2⌋ ≤ j := by
  constructor
  · exact Int.le_floor.mpr (by linarith)
  · exact Int.lt_add_one_iff.mp (Int.floor_lt.mpr (by push_cast; linarith))

theorem halfAway_bounds (lower : i ≤ q) (upper : q ≤ j) : i ≤ halfAway q ∧ halfAway q ≤ j := by
  unfold halfAway
  split
  · exact floor_add_half_bounds lower upper
  · obtain ⟨least, greatest⟩ := floor_add_half_bounds (i := -j) (j := -i) (q := -q) (by push_cast; linarith)
      (by push_cast; linarith)
    omega

theorem halfAway_intCast (n : ℤ) : halfAway n = n := by
  obtain ⟨lower, upper⟩ := halfAway_bounds (q := n) le_rfl le_rfl
  omega

theorem halfAway_neg (q : ℚ) : halfAway (-q) = -halfAway q := by
  rcases lt_trichotomy q 0 with negative | rfl | positive
  · rw [halfAway, if_pos (neg_nonneg.mpr negative.le), halfAway, if_neg negative.not_ge, neg_neg]
  · rw [neg_zero, ← Int.cast_zero, halfAway_intCast, neg_zero]
  · rw [halfAway, if_neg (neg_lt_zero.mpr positive).not_ge, halfAway, if_pos positive.le, neg_neg]

theorem abs_halfAway_sub_le (q : ℚ) : |halfAway q - q| ≤ 1 / 2 := by
  unfold halfAway
  rw [abs_le]
  split
  · have lower := Int.floor_le (q + 1 / 2)
    have upper := Int.lt_floor_add_one (q + 1 / 2)
    constructor <;> linarith
  · have lower := Int.floor_le (-q + 1 / 2)
    have upper := Int.lt_floor_add_one (-q + 1 / 2)
    push_cast
    constructor <;> linarith

theorem halfAway_signed (s : Sign) (m : ℕ) {u : ℕ} (positive : 0 < u) :
    halfAway ((s.apply m : ℤ) / (2 * u : ℕ)) = s.apply ((m + u) / (2 * u) : ℕ) := by
  have raised : halfAway ((m : ℚ) / (2 * u : ℕ)) = ((m + u) / (2 * u) : ℕ) := by
    have unit : (u : ℚ) ≠ 0 := by exact_mod_cast positive.ne'
    have same : (m : ℚ) / (2 * u : ℕ) + 1 / 2 = (m + u : ℕ) / (2 * u : ℕ) := by
      push_cast
      field_simp
    rw [halfAway, if_pos (by positivity), same, Rat.floor_natCast_div_natCast]
    rfl
  cases s with
  | positive =>
    rw [apply_positive, raised]
    rfl
  | negative =>
    rw [apply_negative, neg_div, halfAway_neg, raised]
    rfl

theorem exactValue?_round (known : exactValue? x = some a) : exactValue? (round x) = some (halfAway a : ℚ) := by
  rcases mapMagnitude_cases (fun mantissa unit => (mantissa + unit / 2) / unit) known with
    ⟨n, rfl, same⟩ | ⟨sign, m, k, canonical, rfl, raised⟩
  · rw [round, same, halfAway_intCast, known]
  · have unit : 0 < 2 ^ k := Nat.two_pow_pos k
    have double : 2 ^ (k + 1) = 2 * 2 ^ k := pow_succ' 2 k
    have short : (m + 2 ^ k) / (2 * 2 ^ k) < 2 ^ 53 := by
      have digits := canonical.mantissa_lt
      apply Nat.div_lt_of_lt_mul
      omega
    rw [round, raised, double, Nat.mul_div_cancel_left _ two_pos, halfAway_signed sign m unit,
      exactValue?_nearest_of_short sign short (by decide) (by decide), zpow_zero, mul_one]

theorem exists_exactValue?_snap (known : exactValue? x = some a) (tolerance : Float) :
    ∃ b, exactValue? (snap x tolerance) = some b := by
  unfold Binary64.snap
  dsimp only
  split
  · exact ⟨_, exactValue?_round known⟩
  · exact ⟨a, known⟩

theorem Between.round (inside : Between i j x) : Between i j (round x) := by
  obtain ⟨q, known, lower, upper⟩ := inside
  obtain ⟨least, greatest⟩ := halfAway_bounds lower upper
  exact ⟨halfAway q, exactValue?_round known, by exact_mod_cast least, by exact_mod_cast greatest⟩

theorem Between.snap (inside : Between i j x) (tolerance : Float) : Between i j (snap x tolerance) := by
  unfold Binary64.snap
  dsimp only
  split
  · exact inside.round
  · exact inside

end Rounding

end Calculator.Binary64
