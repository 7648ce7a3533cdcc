import Calculator.Proofs.Binary64.Closest
import Calculator.Proofs.Binary64.Intervals

namespace Calculator.Binary64

variable {x : Float} {q : ℚ} {n : ℤ}

theorem exactValue?_shownScale : exactValue? (intPow 10 shownPlaces) = some (10 ^ 10) := by decide +kernel

theorem exactValue?_roundingLimit : exactValue? roundingLimit = some (10 ^ 15) := by decide +kernel

def ofUnits (n : ℤ) : ℚ := rounded (n / 10 ^ 10)

def shownUnits (q : ℚ) : ℤ := nearestEven (|q| * 10 ^ 10)

def shownValue (q : ℚ) : ℚ := if 10 ^ 15 ≤ |q| then q else ofUnits (halfAway (rounded (q * 10 ^ 10)))

/-- What rounding to the shown places leaves: a real too great for them, or one that is nearest to a number of units of
the last of them. -/
def IsShown (q : ℚ) : Prop := Representable q ∧ (10 ^ 15 ≤ |q| ∨ ∃ n : ℤ, Representable n ∧ q = ofUnits n)

section Signs

theorem Representable.neg (representable : Representable q) : Representable (-q) := by
  unfold Representable nearestReal? at representable ⊢
  rw [rounded_neg, abs_neg]
  split at representable
  · rename_i small
    rw [if_pos small, Option.some.inj representable]
  · cases representable

theorem ofUnits_neg (n : ℤ) : ofUnits (-n) = -ofUnits n := by
  rw [ofUnits, Int.cast_neg, neg_div, rounded_neg, ofUnits]

theorem ofUnits_zero : ofUnits 0 = 0 := by rw [ofUnits, Int.cast_zero, zero_div, rounded_zero]

theorem shownUnits_zero : shownUnits 0 = 0 := by
  have none := nearestEven_intCast 0
  rw [Int.cast_zero] at none
  rw [shownUnits, abs_zero, zero_mul, none]

theorem shownUnits_neg (q : ℚ) : shownUnits (-q) = shownUnits q := by rw [shownUnits, abs_neg, shownUnits]

theorem shownUnits_nonneg (q : ℚ) : 0 ≤ shownUnits q := by
  apply le_nearestEven
  rw [Int.cast_zero]
  positivity

theorem shownValue_neg (q : ℚ) : shownValue (-q) = -shownValue q := by
  unfold shownValue
  rw [abs_neg, neg_mul, rounded_neg, halfAway_neg, ofUnits_neg]
  split <;> rfl

theorem shownValue_zero : shownValue 0 = 0 := by
  have zero := halfAway_intCast 0
  rw [Int.cast_zero] at zero
  rw [shownValue, abs_zero, if_neg (by norm_num), zero_mul, rounded_zero, zero, ofUnits_zero]

theorem IsShown.neg (shown : IsShown q) : IsShown (-q) := by
  obtain ⟨representable, great | ⟨n, units, rfl⟩⟩ := shown
  · exact ⟨representable.neg, .inl (by rwa [abs_neg])⟩
  · refine ⟨representable.neg, .inr ⟨-n, ?_, (ofUnits_neg n).symm⟩⟩
    rw [Int.cast_neg]
    exact units.neg

end Signs

section Rounding

theorem abs_scaled_le (below : |q| < 10 ^ 15) : |q * 10 ^ 10| ≤ ((2 ^ 84 : ℤ) : ℚ) := by
  rw [abs_mul, abs_of_pos (by norm_num : (0 : ℚ) < 10 ^ 10)]
  calc |q| * 10 ^ 10 ≤ 10 ^ 15 * 10 ^ 10 := mul_le_mul_of_nonneg_right below.le (by norm_num)
    _ ≤ ((2 ^ 84 : ℤ) : ℚ) := by norm_num

theorem shownValue_of_below (known : exactValue? x = some q) (below : |q| < 10 ^ 15) :
    Representable (halfAway (rounded (q * 10 ^ 10))) ∧
      exactValue? (round (x * intPow 10 shownPlaces) / intPow 10 shownPlaces) =
        some (ofUnits (halfAway (rounded (q * 10 ^ 10)))) := by
  have power : ((2 ^ 84 : ℤ) : ℚ) = 2 ^ (84 : ℤ) := by norm_num
  have small := abs_scaled_le below
  have product := exactValue?_mul known exactValue?_shownScale
  rw [nearestReal?_of_abs_le (power ▸ small) (by decide) (by decide)] at product
  have whole := exactValue?_round product
  have bound := abs_rounded_le (by decide) (power ▸ small)
  rw [← power, abs_le, ← Int.cast_neg] at bound
  have units : |((halfAway (rounded (q * 10 ^ 10)) : ℤ) : ℚ)| ≤ 2 ^ (84 : ℤ) := by
    rw [← power]
    exact_mod_cast abs_le.mpr (halfAway_bounds bound.1 bound.2)
  have quotient : |((halfAway (rounded (q * 10 ^ 10)) : ℤ) : ℚ) / 10 ^ 10| ≤ 2 ^ (84 : ℤ) := by
    rw [abs_div]
    exact (div_le_self (abs_nonneg _) (by norm_num)).trans units
  refine ⟨representable_of_exactValue? whole, ?_⟩
  rw [exactValue?_div whole exactValue?_shownScale (by norm_num),
    nearestReal?_of_abs_le quotient (by decide) (by decide), ofUnits]

theorem exactValue?_roundShown (known : exactValue? x = some q) :
    exactValue? (roundShown x) = some (shownValue q) ∧ IsShown (shownValue q) := by
  have limit : abs x ≥ roundingLimit ↔ 10 ^ 15 ≤ |q| := by
    rw [ge_iff_le, le_iff_value_le exactValue?_roundingLimit (exactValue?_abs known)]
  unfold roundShown roundTo shownValue
  by_cases great : 10 ^ 15 ≤ |q|
  · rw [if_pos (limit.mpr great), if_pos great]
    exact ⟨known, representable_of_exactValue? known, .inl great⟩
  · obtain ⟨units, value⟩ := shownValue_of_below known (not_le.mp great)
    rw [if_neg (limit.not.mpr great), if_neg great]
    exact ⟨value, representable_of_exactValue? value, .inr ⟨_, units, rfl⟩⟩

end Rounding

section Units

theorem rounded_scaled_twoPow {j : ℤ} (least : -1000 ≤ j) : rounded (2 ^ j * 10 ^ 10) = 2 ^ j * 10 ^ 10 := by
  have split : (2 : ℚ) ^ j * 10 ^ 10 = (9765625 : ℤ) * 2 ^ (j + 10) := by
    rw [zpow_add₀ two_ne_zero]
    norm_num
    ring
  rw [split]
  exact rounded_of_short (by norm_num) (by omega)

variable (positive : 0 < n)
include positive

theorem twoPow_le_ofUnits : 2 ^ (-34 : ℤ) ≤ ofUnits n := by
  have counted : (1 : ℚ) ≤ n := by exact_mod_cast positive
  rw [← rounded_twoPow (e := -34) (by decide)]
  apply rounded_mono
  rw [le_div_iff₀ (by norm_num)]
  norm_num
  linarith

theorem ofUnits_pos : 0 < ofUnits n := (unit_pos _).trans_le (twoPow_le_ofUnits positive)

theorem normal_ofUnits : 2 ^ (-1022 : ℤ) ≤ ofUnits n :=
  (zpow_le_zpow_right₀ one_le_two (by decide)).trans (twoPow_le_ofUnits positive)

theorem abs_sub_ofUnits_le {e : ℤ} (least : -1074 ≤ e) (small : ofUnits n < 2 ^ (e + 53)) :
    |n - ofUnits n * 10 ^ 10| ≤ 2 ^ e * (10 ^ 10 / 2) := by
  have above : (0 : ℚ) < n / 10 ^ 10 := div_pos (by exact_mod_cast positive) (by norm_num)
  have below : |(n / 10 ^ 10 : ℚ)| < 2 ^ (e + 53) := by
    by_contra large
    apply small.not_ge
    rw [← rounded_twoPow (by omega : -1074 ≤ e + 53)]
    apply rounded_mono
    rwa [not_lt, abs_of_pos above] at large
  have unit : (2 : ℚ) ^ unitExponent (n / 10 ^ 10) ≤ 2 ^ e :=
    zpow_le_zpow_right₀ one_le_two (unitExponent_le above.ne' below least)
  have near := abs_rounded_sub_le (n / 10 ^ 10 : ℚ)
  rw [abs_sub_comm, abs_div_sub (by norm_num), div_le_iff₀ (by norm_num)] at near
  unfold ofUnits
  linarith

/-- Whatever number of units is nearest to such a real, the real is nearest to it. -/
theorem ofUnits_shownUnits_ofUnits : ofUnits (shownUnits (ofUnits n)) = ofUnits n := by
  have scale : (0 : ℚ) < 10 ^ 10 := by norm_num
  rw [shownUnits, abs_of_pos (ofUnits_pos positive)]
  by_cases close : |n - ofUnits n * 10 ^ 10| < 1 / 2
  · rw [nearestEven_of_abs_sub_lt close]
  by_cases power : ∃ j : ℤ, ofUnits n = 2 ^ j
  · -- a power of two that is so far off is a whole number
    obtain ⟨j, same⟩ := power
    have large : 0 ≤ j := by
      by_contra fraction
      apply close
      have small : ofUnits n < 2 ^ (-53 + 53 : ℤ) := by
        rw [same]
        exact zpow_lt_zpow_right₀ one_lt_two (by omega)
      refine (abs_sub_ofUnits_le positive (by decide) small).trans_lt ?_
      norm_num
    obtain ⟨k, rfl⟩ := Int.eq_ofNat_of_zero_le large
    have whole : (2 : ℚ) ^ (k : ℤ) * 10 ^ 10 = (2 ^ k * 10 ^ 10 : ℤ) := by
      rw [Int.cast_mul, Int.cast_pow, Int.cast_pow, Int.cast_ofNat, Int.cast_ofNat, zpow_natCast]
    rw [same, whole, nearestEven_intCast, ofUnits, ← whole, mul_div_cancel_right₀ _ scale.ne']
    exact rounded_twoPow (by omega)
  · refine rounded_of_closer (normal_ofUnits positive) (fun j same => power ⟨j, same⟩) ?_
    have closest := abs_nearestEven_sub_le_abs (ofUnits n * 10 ^ 10) n
    rw [abs_div_sub scale, abs_div_sub scale]
    exact div_le_div_of_nonneg_right closest scale.le

end Units

section Shown

theorem IsShown.cases (shown : IsShown q) (positive : 0 < q) :
    10 ^ 15 ≤ q ∨ ∃ n : ℤ, 0 < n ∧ Representable n ∧ q = ofUnits n := by
  obtain ⟨-, great | ⟨n, units, rfl⟩⟩ := shown
  · exact .inl (by rwa [abs_of_pos positive] at great)
  · refine .inr ⟨n, ?_, units, rfl⟩
    by_contra nonpositive
    have mirrored : 0 ≤ ofUnits (-n) := by
      apply rounded_nonneg
      have sign : (0 : ℚ) ≤ (-n : ℤ) := by exact_mod_cast (by omega : 0 ≤ -n)
      positivity
    rw [ofUnits_neg] at mirrored
    linarith

theorem ofUnits_shownUnits_of_great (representable : Representable q) (great : 10 ^ 15 ≤ |q|) :
    ofUnits (shownUnits q) = |q| := by
  have large : 2 ^ (-10 + 52 : ℤ) ≤ |q| := le_trans (by norm_num) great
  obtain ⟨k, units⟩ := representable.exists_multiple large
  have whole : |q| * 10 ^ 10 = (|k| * 9765625 : ℤ) := by
    rw [units, abs_mul, abs_of_pos (unit_pos _)]
    push_cast
    norm_num
    ring
  rw [shownUnits, whole, nearestEven_intCast, ofUnits, ← whole, mul_div_cancel_right₀ _ (by norm_num), ← abs_rounded,
    representable.rounded_eq]

theorem IsShown.ofUnits_shownUnits (shown : IsShown q) : ofUnits (shownUnits q) = |q| := by
  obtain ⟨representable, great | ⟨n, -, rfl⟩⟩ := shown
  · exact ofUnits_shownUnits_of_great representable great
  · rcases lt_trichotomy n 0 with negative | rfl | positive
    · have mirrored := ofUnits_shownUnits_ofUnits (by omega : 0 < -n)
      have magnitude := ofUnits_pos (by omega : 0 < -n)
      rw [ofUnits_neg] at mirrored magnitude
      rw [← shownUnits_neg, mirrored, abs_of_neg (neg_pos.mp magnitude)]
    · rw [ofUnits_zero, shownUnits_zero, ofUnits_zero, abs_zero]
    · rw [ofUnits_shownUnits_ofUnits positive, abs_of_pos (ofUnits_pos positive)]

end Shown

end Calculator.Binary64
