import Calculator.Proofs.Binary64.ShownPlaces

namespace Calculator.Binary64

variable {q : ℚ} {n : ℤ}

/-- The real is more than a quarter of a unit above the nearest number of units, and scaled it still has a binary
place. -/
def IsMovedOn (q : ℚ) : Prop := |q| * 10 ^ 10 < 2 ^ 52 ∧ shownUnits q + 1 / 4 < |q| * 10 ^ 10

theorem isMovedOn_neg (q : ℚ) : IsMovedOn (-q) ↔ IsMovedOn q := by rw [IsMovedOn, abs_neg, shownUnits_neg, IsMovedOn]

section Again

theorem exists_int_rounded_of_twoPow_le (great : 2 ^ 52 ≤ |q|) : ∃ k : ℤ, rounded q = k := by
  have digits := great.trans_lt (lt_of_unitExponent q)
  have power : (2 : ℚ) ^ (52 : ℤ) < 2 ^ (unitExponent q + 53) := by exact_mod_cast digits
  rw [zpow_lt_zpow_iff_right₀ one_lt_two] at power
  obtain ⟨u, unit⟩ := Int.eq_ofNat_of_zero_le (by omega : 0 ≤ unitExponent q)
  refine ⟨nearestEven (q / 2 ^ unitExponent q) * 2 ^ u, ?_⟩
  rw [rounded, unit, zpow_natCast]
  push_cast
  rfl

theorem shownValue_of_pos (positive : 0 < q) (below : q * 10 ^ 10 < 2 ^ 52) :
    shownValue q = ofUnits (halfAway (rounded (q * 10 ^ 10))) := by
  rw [shownValue, if_neg]
  rw [abs_of_pos positive, not_le]
  norm_num at below ⊢
  linarith

variable (positive : 0 < n)
include positive

theorem shownValue_ofUnits_of_great (representable : Representable n) (great : 2 ^ 52 ≤ ofUnits n * 10 ^ 10) :
    shownValue (ofUnits n) = ofUnits n := by
  unfold shownValue
  split
  · rfl
  obtain ⟨k, whole⟩ := exists_int_rounded_of_twoPow_le (great.trans (le_abs_self _))
  have same := rounded_mul_div representable (by norm_num : (0 : ℚ) < 10 ^ 10) (normal_ofUnits positive) fun j power => by
    have least := twoPow_le_ofUnits positive
    rw [ofUnits, power, zpow_le_zpow_iff_right₀ one_lt_two] at least
    exact rounded_scaled_twoPow (by omega)
  rw [whole, halfAway_intCast, ofUnits, ← whole]
  exact same

theorem rounded_add_quarter_le (small : n < 2 ^ 52) : rounded (n + 1 / 4) ≤ n + 1 / 4 := by
  rcases lt_or_ge n (2 ^ 51) with fine | coarse
  · have quarters : (n + 1 / 4 : ℚ) = (4 * n + 1 : ℤ) * 2 ^ (-2 : ℤ) := by
      norm_num
      ring
    rw [quarters]
    exact (rounded_of_short (abs_le.mpr ⟨by omega, by omega⟩) (by decide)).le
  · have lower : (2 ^ 51 : ℚ) ≤ n := by exact_mod_cast coarse
    have upper : (n : ℚ) ≤ 2 ^ 52 - 1 := by exact_mod_cast Int.le_sub_one_of_lt small
    have unit : unitExponent (n + 1 / 4) = -1 := by
      refine unitExponent_eq ?_ ?_ (by decide)
      · rw [abs_of_pos (by linarith)]
        norm_num
        linarith
      · rw [abs_of_pos (by linarith)]
        norm_num
        linarith
    have halves : (n + 1 / 4 : ℚ) / 2 ^ (-1 : ℤ) = (2 * n : ℤ) + 1 / 2 := by
      push_cast
      norm_num
      ring
    rw [rounded, unit, halves, nearestEven_add_half, Int.mul_emod_right]
    norm_num
    linarith

theorem halfAway_eq (lower : n - 1 / 2 ≤ q) (upper : q < n + 1 / 2) : halfAway q = n := by
  have counted : (1 : ℚ) ≤ n := by exact_mod_cast positive
  rw [halfAway, if_pos (by linarith), Int.floor_eq_iff]
  constructor <;> linarith

theorem le_ofUnits_of_past (past : n + 1 / 4 < ofUnits n * 10 ^ 10) : 2 ^ 18 ≤ ofUnits n := by
  by_contra small
  have fine : ofUnits n < 2 ^ (-35 + 53 : ℤ) := by
    norm_num at small ⊢
    exact small
  have close := abs_sub_ofUnits_le positive (by decide) fine
  norm_num at close
  linarith [(abs_le.mp close).1]

section Below

variable (below : ofUnits n * 10 ^ 10 < 2 ^ 52)
include below

theorem abs_sub_ofUnits_lt : |n - ofUnits n * 10 ^ 10| < 3 / 10 := by
  have small : ofUnits n < 2 ^ (-34 + 53 : ℤ) := by
    norm_num at below ⊢
    linarith
  refine (abs_sub_ofUnits_le positive (by decide) small).trans_lt ?_
  norm_num

theorem shownUnits_ofUnits : shownUnits (ofUnits n) = n := by
  rw [shownUnits, abs_of_pos (ofUnits_pos positive)]
  exact nearestEven_of_abs_sub_lt ((abs_sub_ofUnits_lt positive below).trans (by norm_num))

theorem shownValue_ofUnits_of_quarter (quarter : ofUnits n * 10 ^ 10 ≤ n + 1 / 4) :
    shownValue (ofUnits n) = ofUnits n := by
  have close := abs_lt.mp (abs_sub_ofUnits_lt positive below)
  have bound : n ≤ 2 ^ 52 := by
    have next : (n : ℚ) < (2 ^ 52 + 1 : ℤ) := by
      push_cast
      linarith
    exact Int.lt_add_one_iff.mp (by exact_mod_cast next)
  have lower : n - 1 / 2 ≤ rounded (ofUnits n * 10 ^ 10) := by
    have half : (n - 1 / 2 : ℚ) = (2 * n - 1 : ℤ) * 2 ^ (-1 : ℤ) := by
      norm_num
      ring
    rw [half, ← rounded_of_short (n := 2 * n - 1) (abs_le.mpr ⟨by omega, by omega⟩) (by decide : -1074 ≤ (-1 : ℤ)), ← half]
    exact rounded_mono (by linarith)
  have upper : rounded (ofUnits n * 10 ^ 10) < n + 1 / 2 := by
    rcases le_or_gt (ofUnits n * 10 ^ 10) (n : ℚ) with under | past
    · have whole := rounded_mono under
      rw [rounded_intCast (abs_le.mpr ⟨by omega, by omega⟩)] at whole
      exact whole.trans_lt (lt_add_of_pos_right _ (by norm_num))
    · have small : n < 2 ^ 52 := by exact_mod_cast past.trans below
      linarith [rounded_mono quarter, rounded_add_quarter_le positive small]
  rw [shownValue_of_pos (ofUnits_pos positive) below, halfAway_eq positive lower upper]

section Past

variable (past : n + 1 / 4 < ofUnits n * 10 ^ 10)
include past

theorem rounded_of_past : rounded (ofUnits n * 10 ^ 10) = n + 1 / 2 := by
  have large := le_ofUnits_of_past positive past
  have close := abs_lt.mp (abs_sub_ofUnits_lt positive below)
  have scaled : 0 < ofUnits n * 10 ^ 10 := by linarith
  have unit : unitExponent (ofUnits n * 10 ^ 10) = -1 := by
    refine unitExponent_eq ?_ ?_ (by decide)
    · rw [abs_of_pos scaled]
      norm_num at large ⊢
      linarith
    · rw [abs_of_pos scaled]
      norm_num at below ⊢
      exact below
  have halves : nearestEven (ofUnits n * 10 ^ 10 / 2 ^ (-1 : ℤ)) = 2 * n + 1 := by
    apply nearestEven_of_abs_sub_lt
    rw [zpow_neg_one, div_inv_eq_mul, abs_lt]
    push_cast
    constructor <;> linarith
  rw [rounded, unit, halves]
  norm_num
  ring

theorem shownValue_ofUnits_of_past : shownValue (ofUnits n) = ofUnits (n + 1) := by
  have next : halfAway (n + 1 / 2) = n + 1 := by
    apply halfAway_eq (by omega)
    · push_cast
      linarith
    · push_cast
      linarith
  rw [shownValue_of_pos (ofUnits_pos positive) below, rounded_of_past positive below past, next]

theorem abs_sub_ofUnits_succ_le (representable : Representable (ofUnits n)) :
    |(n + 1 : ℤ) - ofUnits (n + 1) * 10 ^ 10| ≤ 1 / 4 := by
  have close := abs_lt.mp (abs_sub_ofUnits_lt positive below)
  have next : Representable (ofUnits n + 2 ^ (-34 : ℤ)) := by
    refine representable.add_unit ?_ ?_ (by decide) (by decide)
    · exact_mod_cast le_ofUnits_of_past positive past
    · norm_num at below ⊢
      linarith
  have closest := abs_rounded_sub_le_abs (q := ((n + 1 : ℤ) : ℚ) / 10 ^ 10) next
  rw [abs_sub_comm, abs_sub_comm _ (((n + 1 : ℤ) : ℚ) / 10 ^ 10), abs_div_sub (by norm_num), abs_div_sub (by norm_num),
    div_le_div_iff_of_pos_right (by norm_num)] at closest
  refine closest.trans ?_
  rw [abs_le]
  push_cast
  norm_num at close past ⊢
  constructor <;> linarith

end Past

end Below

end Again

section Shown

theorem shownValue_of_not_movedOn_of_pos (shown : IsShown q) (stays : ¬ IsMovedOn q) (positive : 0 < q) :
    shownValue q = q := by
  rcases shown.cases positive with great | ⟨n, counted, units, rfl⟩
  · rw [shownValue, if_pos (by rwa [abs_of_pos positive])]
  · rcases lt_or_ge (ofUnits n * 10 ^ 10) (2 ^ 52) with below | great
    · rw [IsMovedOn, shownUnits_ofUnits counted below, abs_of_pos positive] at stays
      exact shownValue_ofUnits_of_quarter counted below (not_lt.mp fun past => stays ⟨below, past⟩)
    · exact shownValue_ofUnits_of_great counted units great

theorem shownValue_of_not_movedOn (shown : IsShown q) (stays : ¬ IsMovedOn q) : shownValue q = q := by
  rcases lt_trichotomy q 0 with negative | rfl | positive
  · have mirrored := shownValue_of_not_movedOn_of_pos shown.neg ((isMovedOn_neg q).not.mpr stays) (neg_pos.mpr negative)
    rwa [shownValue_neg, neg_inj] at mirrored
  · exact shownValue_zero
  · exact shownValue_of_not_movedOn_of_pos shown stays positive

theorem shownValue_of_movedOn_of_pos (shown : IsShown q) (moved : IsMovedOn q) (positive : 0 < q) : 2 ^ 18 ≤ q ∧
    0 < shownValue q ∧ shownUnits (shownValue q) = shownUnits q + 1 ∧ ¬ IsMovedOn (shownValue q) := by
  obtain ⟨below, past⟩ := moved
  rw [abs_of_pos positive] at below past
  rcases shown.cases positive with great | ⟨n, counted, units, rfl⟩
  · norm_num at below great
    linarith
  rw [shownUnits_ofUnits counted below] at past ⊢
  have next := ofUnits_pos (by omega : 0 < n + 1)
  have close := abs_sub_ofUnits_succ_le counted below past shown.1
  have units' : shownUnits (ofUnits (n + 1)) = n + 1 := by
    rw [shownUnits, abs_of_pos next]
    exact nearestEven_of_abs_sub_lt (close.trans_lt (by norm_num))
  rw [shownValue_ofUnits_of_past counted below past]
  refine ⟨le_ofUnits_of_past counted past, next, units', fun moved => ?_⟩
  have past' := moved.2
  rw [units', abs_of_pos next] at past'
  linarith [(abs_le.mp close).1]

/-- A real that is moved on goes to the next units with its sign, and there it stays. -/
theorem shownValue_of_movedOn (shown : IsShown q) (moved : IsMovedOn q) : 2 ^ 18 ≤ |q| ∧
    shownUnits (shownValue q) = shownUnits q + 1 ∧ ¬ IsMovedOn (shownValue q) ∧ (shownValue q < 0 ↔ q < 0) := by
  rcases lt_trichotomy q 0 with negative | rfl | positive
  · obtain ⟨large, sign, units, stays⟩ :=
      shownValue_of_movedOn_of_pos shown.neg ((isMovedOn_neg q).mpr moved) (neg_pos.mpr negative)
    rw [shownValue_neg] at sign units stays
    rw [shownUnits_neg, shownUnits_neg] at units
    rw [isMovedOn_neg] at stays
    exact ⟨by rwa [abs_of_neg negative], units, stays, iff_of_true (neg_pos.mp sign) negative⟩
  · have past := moved.2
    rw [shownUnits_zero, abs_zero] at past
    norm_num at past
  · obtain ⟨large, sign, units, stays⟩ := shownValue_of_movedOn_of_pos shown moved positive
    exact ⟨by rwa [abs_of_pos positive], units, stays, iff_of_false sign.not_gt positive.not_gt⟩

end Shown

end Calculator.Binary64
