import Calculator.Proofs.Binary64.Negation
import Calculator.Proofs.Elementary.Folding

namespace Calculator.Elementary

open Binary64 (Between exactValue? toInt? abs snap rounded)
open Series (Moderate precision)

variable {x y z w s c : Float} {a b : ℚ} {k : ℤ}

section Remainder

def withinTurn (a : ℚ) : ℚ := a - 360 * ⌊a / 360⌋

theorem withinTurn_add_turns (a : ℚ) (k : ℤ) : withinTurn (a + 360 * k) = withinTurn a := by
  have turns : (a + 360 * k) / 360 = a / 360 + k := by field_simp
  rw [withinTurn, turns, Int.floor_add_intCast, withinTurn]
  push_cast
  ring

theorem withinTurn_bounds (a : ℚ) : 0 ≤ withinTurn a ∧ withinTurn a ≤ 360 := by
  have part : withinTurn a = 360 * Int.fract (a / 360) := by
    rw [withinTurn, Int.fract, mul_sub, mul_div_cancel₀ _ (by norm_num)]
  have lower := Int.fract_nonneg (a / 360)
  have upper := (Int.fract_lt_one (a / 360)).le
  rw [part]
  constructor <;> linarith

theorem withinTurn_rightAngles (k : ℤ) : withinTurn (90 * k) = (90 * (k % 4) : ℤ) := by
  have turns : (90 * k : ℚ) / 360 = k / (4 : ℕ) := by ring
  rw [withinTurn, turns, Rat.floor_intCast_div_natCast, Int.emod_def]
  push_cast
  ring

theorem reduce_of_finite (known : exactValue? x = some a) : reduce x = .ok (Binary64.euclideanRemainder x 360) :=
  if_pos (Binary64.isFinite_iff_exactValue?.mpr ⟨a, known⟩)

theorem exists_reduce (known : exactValue? x = some a) :
    ∃ z, reduce x = .ok z ∧ exactValue? z = some (rounded (withinTurn a)) := by
  have turn : exactValue? 360 = some ((360 : ℤ) : ℚ) := Binary64.toInt?_eq_some_iff.mp (by rfl)
  exact ⟨_, reduce_of_finite known, Binary64.exactValue?_euclideanRemainder known turn (by norm_num)⟩

theorem between_reduced (reduced : exactValue? z = some (rounded (withinTurn a))) : Between 0 360 z := by
  obtain ⟨lower, upper⟩ := withinTurn_bounds a
  refine ⟨_, reduced, ?_, ?_⟩
  · rw [← Binary64.rounded_intCast (by decide : |(0 : ℤ)| ≤ 2 ^ 53)]
    exact Binary64.rounded_mono (by exact_mod_cast lower)
  · rw [← Binary64.rounded_intCast (by decide : |(360 : ℤ)| ≤ 2 ^ 53)]
    exact Binary64.rounded_mono (by exact_mod_cast upper)

end Remainder

section Outcomes

def angleFunctions : List (Float → Except DomainError Float) := [sin, cos, tg, cotg]

/-- The error, or the exact value of the result, if it has one. -/
def exactOutcome (outcome : Except DomainError Float) : Except DomainError (Option ℚ) := outcome.map exactValue?

theorem forall_angleFunctions {holds : (Float → Except DomainError Float) → Prop} :
    (∀ f ∈ angleFunctions, holds f) ↔ holds sin ∧ holds cos ∧ holds tg ∧ holds cotg := by
  simp [angleFunctions]

theorem eq_of_reduce_eq (same : reduce x = reduce y) : ∀ f ∈ angleFunctions, f x = f y := by
  have sine : sin x = sin y := by rw [sin, same, sin]
  have cosine : cos x = cos y := by rw [cos, same, cos]
  refine forall_angleFunctions.mpr ⟨sine, cosine, ?_, ?_⟩
  · rw [tg, cosine, sine, tg]
  · rw [cotg, cosine, sine, cotg]

theorem exists_snapped {toHalfTurn : Float → Float} (ofHalf : ∀ {d}, Between 0 180 d → Moderate (toHalfTurn d))
    (known : exactValue? x = some a) :
    ∃ s, (do return snap (overTurn toHalfTurn (← reduce x)) precision) = .ok s ∧ Moderate s := by
  obtain ⟨z, same, reduced⟩ := exists_reduce known
  refine ⟨_, ?_, (moderate_overTurn ofHalf (between_reduced reduced)).snap precision⟩
  rw [same]
  rfl

theorem exactOutcome_quotient_ne (dividend : Moderate s) (divisor : Moderate c) (e : DomainError) :
    exactOutcome (if abs c < precision then .error e else .ok (snap (s / c) precision)) ≠ .ok none := by
  split
  · nofun
  · rename_i large
    obtain ⟨b, known, -⟩ := divisor
    obtain ⟨q, quotient⟩ := exists_quotient dividend known large
    obtain ⟨r, snapped⟩ := Binary64.exists_exactValue?_snap quotient precision
    simp [exactOutcome, Except.map, snapped]

theorem exactOutcome_ok_ne {z : Float} (moderate : Moderate z) : exactOutcome (.ok z) ≠ .ok none := by
  obtain ⟨q, known, -⟩ := moderate
  simp [exactOutcome, Except.map, known]

theorem exactOutcome_ne (known : exactValue? x = some a) : ∀ f ∈ angleFunctions, exactOutcome (f x) ≠ .ok none := by
  obtain ⟨s, sine, moderateSine⟩ : ∃ s, sin x = .ok s ∧ Moderate s := exists_snapped moderate_sineToHalfTurn known
  obtain ⟨c, cosine, moderateCosine⟩ : ∃ c, cos x = .ok c ∧ Moderate c := exists_snapped moderate_cosineToHalfTurn known
  refine forall_angleFunctions.mpr ⟨?_, ?_, ?_, ?_⟩
  · rw [sine]
    exact exactOutcome_ok_ne moderateSine
  · rw [cosine]
    exact exactOutcome_ok_ne moderateCosine
  · rw [tg, cosine, sine]
    exact exactOutcome_quotient_ne moderateSine moderateCosine .undefinedTangent
  · rw [cotg, cosine, sine]
    exact exactOutcome_quotient_ne moderateCosine moderateSine .undefinedCotangent

end Outcomes

section RightAngles

@[mk_iff]
structure AtRightAngles (k : ℤ) (x : Float) : Prop where
  sine : exactOutcome (sin x) = .ok (some ([0, 1, 0, -1].getD (k % 4).toNat 0))
  cosine : exactOutcome (cos x) = .ok (some ([1, 0, -1, 0].getD (k % 4).toNat 0))
  tangent : exactOutcome (tg x) = if Even k then .ok (some 0) else .error .undefinedTangent
  cotangent : exactOutcome (cotg x) = if Even k then .error .undefinedCotangent else .ok (some 0)

instance : Decidable (AtRightAngles k x) := decidable_of_iff' _ (atRightAngles_iff k x)

theorem atRightAngles_emod : AtRightAngles (k % 4) x ↔ AtRightAngles k x := by
  have even : Even (k % 4) ↔ Even k := by
    rw [Int.even_iff, Int.even_iff]
    omega
  simp only [atRightAngles_iff, even, Int.emod_emod]

theorem atRightAngles_of_reduce_eq (same : reduce x = reduce y) (values : AtRightAngles k y) : AtRightAngles k x := by
  obtain ⟨sine, cosine, tangent, cotangent⟩ := forall_angleFunctions.mp (eq_of_reduce_eq same)
  rwa [atRightAngles_iff, sine, cosine, tangent, cotangent, ← atRightAngles_iff]

theorem AtRightAngles.exactOutcome_eq (first : AtRightAngles k x) (second : AtRightAngles k y) :
    ∀ f ∈ angleFunctions, exactOutcome (f x) = exactOutcome (f y) :=
  forall_angleFunctions.mpr ⟨first.sine.trans second.sine.symm, first.cosine.trans second.cosine.symm,
    first.tangent.trans second.tangent.symm, first.cotangent.trans second.cotangent.symm⟩

theorem eq_of_whole {n : ℤ} (known : exactValue? z = some (n : ℚ)) (whole : toInt? w = some n) (nonzero : n ≠ 0) :
    z = w := by
  rcases Binary64.eq_or_zero_of_exactValue? known (Binary64.toInt?_eq_some_iff.mp whole) with same | zero
  · exact same
  · exact absurd (Int.cast_eq_zero.mp zero) nonzero

theorem atRightAngles_of_remainder {r : ℤ} (lower : 0 ≤ r) (upper : r < 4)
    (known : exactValue? z = some ((90 * r : ℤ) : ℚ)) : reduce z = .ok z ∧ AtRightAngles r z := by
  obtain rfl | rfl | rfl | rfl : r = 0 ∨ r = 1 ∨ r = 2 ∨ r = 3 := by omega
  · rcases Binary64.eq_zero_or_negative_zero (by simpa using known) with rfl | rfl
    · exact ⟨by rfl, by decide +kernel⟩
    · exact ⟨by rfl, by decide +kernel⟩
  · obtain rfl := eq_of_whole known (by rfl : toInt? 90 = some 90) (by decide)
    exact ⟨by rfl, by decide +kernel⟩
  · obtain rfl := eq_of_whole known (by rfl : toInt? 180 = some 180) (by decide)
    exact ⟨by rfl, by decide +kernel⟩
  · obtain rfl := eq_of_whole known (by rfl : toInt? 270 = some 270) (by decide)
    exact ⟨by rfl, by decide +kernel⟩

theorem atRightAngles_of_reduced {r : ℤ} (lower : 0 ≤ r) (upper : r < 4) (reduced : reduce x = .ok z)
    (known : exactValue? z = some ((90 * r : ℤ) : ℚ)) : AtRightAngles r x := by
  obtain ⟨fixed, values⟩ := atRightAngles_of_remainder lower upper known
  exact atRightAngles_of_reduce_eq (reduced.trans fixed.symm) values

theorem atRightAngles_of_multiple (known : exactValue? x = some (90 * k : ℚ)) : AtRightAngles k x := by
  have lower := Int.emod_nonneg k (by decide : (4 : ℤ) ≠ 0)
  have upper := Int.emod_lt_of_pos k (by decide : (0 : ℤ) < 4)
  obtain ⟨z, same, reduced⟩ := exists_reduce known
  rw [withinTurn_rightAngles, Binary64.rounded_intCast (by rw [abs_of_nonneg] <;> omega)] at reduced
  exact atRightAngles_emod.mp (atRightAngles_of_reduced lower upper same reduced)

end RightAngles

theorem exactOutcome_eq_of_turns (left : exactValue? x = some a) (right : exactValue? y = some b)
    (turns : a - b = 360 * k) : ∀ f ∈ angleFunctions, exactOutcome (f x) = exactOutcome (f y) := by
  obtain ⟨z, sameX, reducedX⟩ := exists_reduce left
  obtain ⟨w, sameY, reducedY⟩ := exists_reduce right
  rw [← add_sub_cancel b a, turns, withinTurn_add_turns] at reducedX
  rcases Binary64.eq_or_zero_of_exactValue? reducedX reducedY with rfl | zero
  · intro f mem
    rw [eq_of_reduce_eq (sameX.trans sameY.symm) f mem]
  · have vanishes : rounded (withinTurn b) = (90 * 0 : ℤ) := by simpa using zero
    rw [vanishes] at reducedX reducedY
    have first : AtRightAngles 0 x := atRightAngles_of_reduced le_rfl (by decide) sameX reducedX
    exact first.exactOutcome_eq (atRightAngles_of_reduced le_rfl (by decide) sameY reducedY)

/-- Sine, cosine and the tangents of finite angles do not change with whole turns, nor do their errors, and they are
exact at the multiples of a right angle. -/
theorem periodic_and_exact_at_right_angles (known : exactValue? x = some a) :
    (∀ {y b} {k : ℤ}, exactValue? y = some b → a - b = 360 * k →
      ∀ f ∈ angleFunctions, exactOutcome (f x) = exactOutcome (f y) ∧ exactOutcome (f x) ≠ .ok none) ∧
    ∀ k : ℤ, a = 90 * k → AtRightAngles k x := by
  constructor
  · intro y b k right turns f mem
    exact ⟨exactOutcome_eq_of_turns known right turns f mem, exactOutcome_ne known f mem⟩
  · rintro k rfl
    exact atRightAngles_of_multiple known

theorem periodic_and_exact_at_right_angles_backward :
    exactValue? (-450) = some (-450) ∧ exactValue? 270 = some 270 ∧ (-450 - 270 : ℚ) = 360 * (-2 : ℤ) ∧
      (-450 : ℚ) = 90 * (-5 : ℤ) ∧
      (∀ f ∈ angleFunctions, exactOutcome (f (-450)) = exactOutcome (f 270) ∧ exactOutcome (f (-450)) ≠ .ok none) ∧
      AtRightAngles (-5) (-450) := by
  have left : exactValue? (-450) = some (-450) := by decide +kernel
  have right : exactValue? 270 = some 270 := by decide +kernel
  have turns : (-450 - 270 : ℚ) = 360 * (-2 : ℤ) := by norm_num
  have quarters : (-450 : ℚ) = 90 * (-5 : ℤ) := by norm_num
  obtain ⟨periodic, exact⟩ := periodic_and_exact_at_right_angles left
  exact ⟨left, right, turns, quarters, periodic right turns, exact (-5) quarters⟩

end Calculator.Elementary
