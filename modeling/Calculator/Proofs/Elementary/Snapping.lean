import Calculator.Proofs.Binary64.ShownPlaces
import Calculator.Proofs.Elementary.Candidates
import Calculator.Proofs.Elementary.OddRoots

namespace Calculator

open Binary64 (exactValue? toInt? nearestReal? rounded halfAway Near roundoff)

open Float.Model.UnpackedFloat (Sign)

variable {a r u x y z : Float} {q b c : ℚ}

namespace Binary64

theorem sub_eq_add_negate (x y : Float) : x - y = x + -y := by
  change Float.ofModel (.pack (Float.Model.UnpackedFloat.sub .binary64 x.toModel.unpack y.toModel.unpack)) =
    .ofModel (.pack (.add .binary64 x.toModel.unpack (-y).toModel.unpack))
  rw [unpack_neg, sub_eq_add_neg_unpacked]

theorem isFinite_of_sub (finite : (x - y).isFinite = true) : x.isFinite = true ∧ y.isFinite = true := by
  rw [sub_eq_add_negate] at finite
  have finite' := isFinite_of_add finite
  rwa [isFinite_negate] at finite'

theorem unpack_abs_of_infinite {s : Sign} (infinite : x.toModel.unpack = .infinity s) :
    (abs x).toModel.unpack = .infinity .positive := by
  cases s with
  | positive =>
    have notNegative : ¬ x < 0 := by
      rw [lt_iff, infinite]
      nofun
    rw [abs, if_neg notNegative, infinite]
  | negative =>
    have negative : x < 0 := by
      rw [lt_iff, infinite]
      rfl
    rw [abs, if_pos negative, unpack_neg, infinite]
    rfl

theorem isFinite_of_abs_lt (known : exactValue? y = some b) (below : abs x < y) : x.isFinite = true := by
  by_contra past
  cases signed : sign? x with
  | none =>
    have unpacked := unpack_of_isNaN (sign?_eq_none_iff.mp signed)
    have notNegative : ¬ x < 0 := by
      rw [lt_iff, unpacked]
      nofun
    rw [abs, if_neg notNegative, lt_iff, unpacked] at below
    cases below
  | some s =>
    have unpacked := unpack_of_sign? signed past
    rw [lt_iff, unpack_abs_of_infinite unpacked] at below
    rcases exactValue?_cases known with ⟨t, zero, -⟩ | ⟨t, m, e, positive, number, -, -⟩
    · rw [zero] at below
      cases below
    · rw [number] at below
      cases below

theorem round_cases (x : Float) : round x = x ∨ ∃ q, exactValue? x = some q ∧ |q| < 2 ^ 53 := by
  by_cases finite : x.isFinite = true
  · obtain ⟨q, known⟩ := isFinite_iff_exactValue?.mp finite
    rcases mapMagnitude_cases (fun mantissa unit => (mantissa + unit / 2) / unit) known with
      ⟨-, -, same⟩ | ⟨s, m, k, canonical, rfl, -⟩
    · exact .inl same
    · refine .inr ⟨_, known, ?_⟩
      have digits : (m : ℚ) < 2 ^ 53 := by exact_mod_cast canonical.mantissa_lt
      have unit : (1 : ℚ) ≤ (2 ^ (k + 1) : ℕ) := by exact_mod_cast Nat.one_le_two_pow
      have magnitude : |((s.apply (m : ℤ) : ℤ) : ℚ)| = m := by
        cases s with
        | positive => rw [apply_positive, Nat.abs_cast]
        | negative => rw [apply_negative, abs_neg, Nat.abs_cast]
      rw [abs_div, magnitude, Nat.abs_cast]
      exact (div_le_self (Nat.cast_nonneg m) unit).trans_lt digits
  · left
    unfold round mapMagnitude
    split
    · rename_i unpacked
      exact absurd (congrArg Float.Model.UnpackedFloat.isFinite unpacked) finite
    · rfl

theorem near_roundShown (known : exactValue? x = some q) :
    Near (roundShown x) q (1 / (2 * 10 ^ 10) + 1 / 10 ^ 20 + 3 * roundoff * |(q : ℝ)|) := by
  have error := roundoff_pos
  have tiny := roundoff_lt
  have magnitude := abs_nonneg (q : ℝ)
  unfold roundShown roundTo
  split
  · exact (near_of_exactValue? known).mono (by positivity)
  rename_i below
  have small : |q| < 10 ^ 15 := by
    rw [ge_iff_le, le_iff_value_le exactValue?_roundingLimit (exactValue?_abs known), not_le] at below
    exact below
  have small' : |(q : ℝ)| < 10 ^ 15 := by exact_mod_cast small
  have cast : ((10 ^ 10 : ℚ) : ℝ) = 10 ^ 10 := by norm_num
  have scaled := (near_of_exactValue? known).mul (near_of_exactValue? exactValue?_shownScale) (κ := 0)
    (M := (|(q : ℝ)| + 1 / 10 ^ 10) * 10 ^ 10) (inRange_of_le (by linarith) (by linarith)) (by simp)
    (by rw [cast, abs_mul, add_zero, abs_of_pos (by norm_num : (0 : ℝ) < 10 ^ 10)]; linarith)
  rw [cast, zero_add] at scaled
  obtain ⟨p, value, close⟩ := scaled
  have half : |((halfAway p : ℤ) : ℝ) - p| ≤ 1 / 2 := by
    have nearest := Rat.cast_le (K := ℝ) |>.mpr (abs_halfAway_sub_le p)
    push_cast at nearest
    exact nearest
  have whole : Near (round (x * intPow 10 shownPlaces)) (q * 10 ^ 10)
      (1 / 2 + roundoff * ((|(q : ℝ)| + 1 / 10 ^ 10) * 10 ^ 10)) :=
    ⟨_, exactValue?_round value, (abs_sub_le _ (p : ℝ) _).trans (add_le_add (by rwa [Rat.cast_intCast]) close)⟩
  have unscaled := whole.div (M := 2 * |(q : ℝ)| + 1 / 10 ^ 9) (inRange_of_le (by linarith) (by linarith))
    exactValue?_shownScale (by norm_num) (by rw [cast, mul_div_cancel_right₀ _ (by norm_num)]; nlinarith)
  rw [cast, mul_div_cancel_right₀ _ (by norm_num)] at unscaled
  exact unscaled.mono (by linarith)

end Binary64

namespace Elementary

open Binary64 (abs)

section Tests

theorem exists_rootTolerance : ∃ t ∈ exactValue? rootTolerance, 1 / 10 ^ 10 ≤ t ∧ t ≤ 1 / 10 ^ 10 + 1 / 10 ^ 26 := by
  decide +kernel

/-- The test is passed by numbers only, and none of the digits that tell them apart is lost in it. -/
theorem near_of_test (test : abs (x - a) < rootTolerance) :
    ∃ p q, exactValue? x = some p ∧ exactValue? a = some q ∧ |p - q| ≤ 1 / 10 ^ 10 + 1 / 10 ^ 26 := by
  obtain ⟨t, tolerance, -, bound⟩ := exists_rootTolerance
  have finite := Binary64.isFinite_of_abs_lt tolerance test
  obtain ⟨left, right⟩ := Binary64.isFinite_of_sub finite
  obtain ⟨p, known⟩ := Binary64.isFinite_iff_exactValue?.mp left
  obtain ⟨q, known'⟩ := Binary64.isFinite_iff_exactValue?.mp right
  obtain ⟨d, difference⟩ := Binary64.isFinite_iff_exactValue?.mp finite
  rw [Binary64.lt_iff_value_lt (Binary64.exactValue?_abs difference) tolerance,
    Binary64.eq_rounded ((Binary64.exactValue?_sub known known').symm.trans difference), Binary64.abs_rounded] at test
  refine ⟨p, q, known, known', le_trans ?_ bound⟩
  by_contra apart
  have exact := (Binary64.representable_of_exactValue? tolerance).rounded_eq
  have ordered := Binary64.rounded_mono (not_le.mp apart).le
  rw [exact] at ordered
  linarith

theorem test_zero (zero : exactValue? x = some 0) (test : abs (x - a) < rootTolerance) : abs a < rootTolerance := by
  obtain ⟨t, tolerance, -, -⟩ := exists_rootTolerance
  obtain ⟨p, q, -, known, -⟩ := near_of_test test
  have difference := Binary64.exactValue?_sub zero known
  rw [zero_sub, Binary64.nearestReal?_of_exactValue? (Binary64.exactValue?_neg known)] at difference
  rwa [Binary64.lt_iff_value_lt (Binary64.exactValue?_abs difference) tolerance, abs_neg,
    ← Binary64.lt_iff_value_lt (Binary64.exactValue?_abs known) tolerance] at test

theorem snappedRoot_cases (a n root : Float) : snappedRoot a n root = root ∨
    ∃ raised, power (Binary64.round root) n = .ok raised ∧ abs (raised - a) < rootTolerance ∧
      snappedRoot a n root = Binary64.round root := by
  unfold snappedRoot
  cases result : power (Binary64.round root) n with
  | error e => exact .inl rfl
  | ok raised =>
    dsimp only
    split
    · rename_i test
      exact .inr ⟨raised, rfl, test, rfl⟩
    · exact .inl rfl

end Tests

/-- How a root `r` may differ from the root `u` before it is moved to a whole number: by the tolerance and noise in
proportion to the root, or altogether where it is zero and the radicand is below the tolerance. -/
def NoiseRemoved (a r u : Float) : Prop :=
  r = u ∨ ∃ p q, exactValue? r = some p ∧ exactValue? u = some q ∧
    (|p - q| < 1 / 10 ^ 10 + 1 / 10 ^ 12 * |q| ∨ p = 0 ∧ |q| ≤ 1 / 2 ∧ abs a < rootTolerance)

section PositiveRadicands

variable {k : ℤ}

theorem abs_sub_lt_of_near {m : ℝ} {v : ℝ} (close : |m - v| ≤ 1 / 10 ^ 10 + 1 / 10 ^ 18 + 1 / 2 * (1 / 10 ^ 12) * m)
    (first : 1 ≤ m) : |m - v| < 1 / 10 ^ 10 + 1 / 10 ^ 12 * |v| := by
  have triangle := abs_sub_abs_le_abs_sub m v
  rw [abs_of_nonneg (by linarith : 0 ≤ m)] at triangle
  linarith

variable {e : Float} (known : exactValue? a = some q) (positive : 0 < q) (degree : exactValue? y = some b)
  (above : 1 < b) (estimate : power a (1 / y) = .ok e)
include known positive degree above estimate

theorem not_moved_below_zero {v : ℚ} {raised : Float} (value : exactValue? (newtonStep e a y) = some v) (below : v ≤ -1 / 2)
    (whole : exactValue? x = some (k : ℚ)) (negative : k < 0) (last : -2 ^ 53 ≤ k) (result : power x y = .ok raised) :
    ¬ abs (raised - a) < rootTolerance := by
  intro test
  obtain ⟨p, q', raisedValue, known', apart⟩ := near_of_test test
  obtain rfl := Option.some.inj (known.symm.trans known')
  obtain ⟨m, rfl⟩ : ∃ m : ℕ, k = -m := ⟨k.natAbs, by omega⟩
  have opposite := Binary64.exactValue?_neg whole
  push_cast at opposite
  rw [neg_neg] at opposite
  have near {z : Float} := root_near_of_power known degree above estimate (m := m) (z := z) (by omega) (by omega) opposite
  cases exponent : toInt? y with
  | none =>
    have below' : x < 0 := (Binary64.lt_zero_iff whole).mpr (by exact_mod_cast negative)
    rw [power_of_fraction exponent, if_pos below'] at result
    cases result
  | some n =>
    have same := power_negate (Binary64.toInt?_eq_some_iff.mp exponent) (-x)
    rw [Binary64.negate_negate, result] at same
    split at same
    · obtain ⟨p', value', -, close⟩ := near same.symm
      obtain rfl := Option.some.inj (raisedValue.symm.trans value')
      obtain ⟨v', root, error⟩ := close apart
      obtain rfl := Option.some.inj (value.symm.trans root)
      have first : (1 : ℝ) ≤ m := by exact_mod_cast (by omega : 1 ≤ m)
      have below' : (v : ℝ) ≤ -1 / 2 := by exact_mod_cast below
      linarith [(abs_le.mp error).2]
    · cases raisedOpposite : power (-x) y with
      | error e =>
        rw [raisedOpposite] at same
        cases same
      | ok z =>
        rw [raisedOpposite] at same
        cases same
        obtain ⟨p', value', one_le, -⟩ := near raisedOpposite
        obtain rfl := Option.some.inj (raisedValue.symm.trans (Binary64.exactValue?_neg value'))
        linarith [(abs_le.mp apart).1]

theorem noiseRemoved_of_positive : NoiseRemoved a (snappedRoot a y (newtonStep e a y)) (newtonStep e a y) := by
  rcases snappedRoot_cases a y (newtonStep e a y) with kept | ⟨raised, result, test, moved⟩
  · exact .inl kept
  rcases Binary64.round_cases (newtonStep e a y) with same | ⟨v, value, short⟩
  · exact .inl (moved.trans same)
  have whole := Binary64.exactValue?_round value
  have half := abs_le.mp (Binary64.abs_halfAway_sub_le v)
  obtain ⟨lower, upper⟩ := abs_lt.mp short
  obtain ⟨least, most⟩ := Binary64.halfAway_bounds (i := -2 ^ 53) (j := 2 ^ 53) (by exact_mod_cast lower.le)
    (by exact_mod_cast upper.le)
  rw [moved]
  refine .inr ⟨_, v, whole, value, ?_⟩
  generalize halfAway v = k at whole half least most ⊢
  rcases lt_trichotomy k 0 with negative | rfl | positive'
  · have below : v ≤ -1 / 2 := by
      have bound : (k : ℚ) ≤ -1 := by exact_mod_cast (by omega : k ≤ -1)
      linarith
    exact absurd test (not_moved_below_zero known positive degree above estimate value below whole negative least result)
  · obtain ⟨w, success, zero⟩ := exists_power_of_unit whole (.inl Int.cast_zero) degree (one_pos.trans above)
    obtain rfl := Except.ok.inj (result.symm.trans success)
    rw [Int.cast_zero] at zero half
    refine .inr ⟨Int.cast_zero, ?_, test_zero zero test⟩
    rw [abs_le]
    constructor <;> linarith
  · obtain ⟨m, rfl⟩ := Int.eq_ofNat_of_zero_le positive'.le
    have last : m ≤ 2 ^ 53 := by exact_mod_cast most
    obtain ⟨p, raisedValue, -, near⟩ := root_near_of_power known degree above estimate (by omega) last whole result
    obtain ⟨p', q', raisedValue', known', apart⟩ := near_of_test test
    obtain rfl := Option.some.inj (known.symm.trans known')
    obtain rfl := Option.some.inj (raisedValue.symm.trans raisedValue')
    obtain ⟨v', root, error⟩ := near apart
    obtain rfl := Option.some.inj (value.symm.trans root)
    have close := abs_sub_lt_of_near error (by exact_mod_cast positive')
    left
    rw [← Rat.cast_lt (K := ℝ)]
    push_cast
    exact close

end PositiveRadicands

section Roots

variable {e : Float}

theorem newtonStep_of_degree_one (e a : Float) : newtonStep e a 1 = e := by
  have guard : (e == 0 || decide ((1 : Float) < 2) || !Binary64.hasNoFraction 1) = true := by
    rw [decide_eq_true (by decide : (1 : Float) < 2), Bool.or_true, Bool.true_or]
  rw [newtonStep, if_pos guard]

theorem exactValue?_unsnappedRoot_of_degree_one (known : exactValue? a = some q) (root : unsnappedRoot a 1 = .ok u) :
    exactValue? u = some q := by
  have one : exactValue? 1 = some ((1 : ℕ) : ℚ) := Binary64.exactValue?_ofNat_one
  have magnitude := Binary64.exactValue?_abs known
  have reciprocal : (1 / 1 : Float) = 1 := rfl
  obtain ⟨w, success, value⟩ := power_exact (z := abs a) magnitude one (by decide) (by rwa [pow_one])
  rw [unsnappedRoot, reciprocal, success] at root
  obtain rfl := Except.ok.inj root
  rw [pow_one] at value
  rw [newtonStep_of_degree_one]
  split
  · rename_i negative
    rw [Binary64.exactValue?_neg value, abs_of_neg ((Binary64.lt_zero_iff known).mp negative), neg_neg]
  · rename_i notNegative
    rw [value, abs_of_nonneg (not_lt.mp ((Binary64.lt_zero_iff known).not.mp notNegative))]

theorem noiseRemoved_of_degree_one (known : exactValue? a = some q) (root : unsnappedRoot a 1 = .ok u) :
    NoiseRemoved a (snappedRoot a 1 u) u := by
  have one : exactValue? 1 = some ((1 : ℕ) : ℚ) := Binary64.exactValue?_ofNat_one
  have value := exactValue?_unsnappedRoot_of_degree_one known root
  have whole := Binary64.exactValue?_round value
  have half := abs_le.mp (Binary64.abs_halfAway_sub_le q)
  rcases snappedRoot_cases a 1 u with kept | ⟨raised, result, test, moved⟩
  · exact .inl kept
  obtain ⟨w, success, same⟩ := power_exact (z := Binary64.round u) whole one (by decide) (by rwa [pow_one])
  obtain rfl := Except.ok.inj (result.symm.trans success)
  obtain ⟨p, q', raisedValue, known', apart⟩ := near_of_test test
  rw [pow_one] at same
  obtain rfl := Option.some.inj (known.symm.trans known')
  obtain rfl := Option.some.inj (raisedValue.symm.trans same)
  rw [moved]
  refine .inr ⟨_, q, whole, value, ?_⟩
  rcases eq_or_ne (halfAway q) 0 with zero | nonzero
  · rw [zero, Int.cast_zero] at same half ⊢
    refine .inr ⟨rfl, ?_, test_zero same test⟩
    rw [abs_le]
    constructor <;> linarith
  · left
    have first : (1 : ℚ) ≤ |(halfAway q : ℚ)| := by exact_mod_cast Int.one_le_abs nonzero
    have triangle := abs_sub_abs_le_abs_sub (halfAway q : ℚ) q
    linarith

theorem unsnappedRoot_of_positive (known : exactValue? a = some q) (positive : 0 < q) (root : unsnappedRoot a y = .ok u) :
    ∃ e, power a (1 / y) = .ok e ∧ u = newtonStep e a y := by
  have notNegative : ¬ a < 0 := (Binary64.lt_zero_iff known).not.mpr positive.le.not_gt
  have same : abs a = a := if_neg notNegative
  rw [unsnappedRoot, same] at root
  cases result : power a (1 / y) with
  | error failure =>
    rw [result] at root
    cases root
  | ok e =>
    rw [result] at root
    exact ⟨e, rfl, (Except.ok.inj root).symm.trans (if_neg notNegative)⟩

theorem unsnappedRoot_of_zero (zero : exactValue? a = some 0) (degree : exactValue? y = some b) (above : 1 < b) :
    unsnappedRoot a y = .ok 0 := by
  obtain ⟨r, reciprocal, least, most⟩ := exists_reciprocal_degree degree above
  have magnitude := Binary64.exactValue?_abs zero
  have notNegative : ¬ a < 0 := (Binary64.lt_zero_iff zero).not.mpr (lt_irrefl 0)
  have notNegative' : ¬ abs a < 0 := by
    rw [Binary64.lt_zero_iff magnitude, abs_zero]
    exact lt_irrefl 0
  rw [abs_zero] at magnitude
  rw [unsnappedRoot, power_of_fraction (toInt?_of_fraction reciprocal least most), if_neg notNegative',
    realPower_zero_base magnitude, if_pos ((Binary64.zero_lt_iff reciprocal).mpr least)]
  dsimp only [bind, Except.bind, pure, Except.pure]
  rw [if_neg notNegative]
  rfl

theorem NoiseRemoved.negate (removed : NoiseRemoved a r u) (known : exactValue? a = some q) (nonzero : q ≠ 0) :
    NoiseRemoved (-a) (-r) (-u) := by
  rcases removed with rfl | ⟨p, v, moved, root, close⟩
  · exact .inl rfl
  · refine .inr ⟨-p, -v, Binary64.exactValue?_neg moved, Binary64.exactValue?_neg root, ?_⟩
    rwa [abs_negate_of_ne_zero known nonzero, neg_sub_neg, abs_sub_comm, abs_neg, neg_eq_zero]

theorem infinite_of_one_le (least : 1 ≤ y) (past : ¬ y.isFinite = true) : y.toModel.unpack = .infinity .positive := by
  obtain ⟨m, e, positive, one⟩ := Binary64.unpack_one
  rw [Binary64.le_iff, one] at least
  change ¬ y.toModel.unpack.isFinite = true at past
  cases unpacked : y.toModel.unpack with
  | infinity s =>
    rw [unpacked] at least
    cases s with
    | positive => rfl
    | negative => cases least
  | notANumber =>
    rw [unpacked] at least
    cases least
  | _ =>
    rw [unpacked] at past
    exact absurd rfl past

theorem snappedRoot_of_infinite (infinite : y.toModel.unpack = .infinity .positive) (root : unsnappedRoot a y = .ok u) :
    snappedRoot a y u = u := by
  obtain rfl : y = .ofModel (.pack (.infinity .positive)) := by rw [← Binary64.ofModel_pack_unpack y, infinite]
  have reciprocal : exactValue? (1 / .ofModel (.pack (.infinity .positive))) = some 0 := rfl
  have kept : newtonStep 1 (abs a) (.ofModel (.pack (.infinity .positive))) = 1 := by
    rw [newtonStep, if_pos]
    rw [show Binary64.hasNoFraction (.ofModel (.pack (.infinity .positive))) = false from rfl, Bool.not_false, Bool.or_true]
  have first : power (Binary64.round 1) (.ofModel (.pack (.infinity .positive))) = .error .overflow := by
    have one := Binary64.exactValue?_round Binary64.exactValue?_ofNat_one
    rw [← Int.cast_one, Binary64.halfAway_intCast, Int.cast_one] at one
    rw [(Binary64.eq_or_zero_of_exactValue? one Binary64.exactValue?_ofNat_one).resolve_right one_ne_zero,
      power_of_fraction rfl, if_neg (by decide), realPower_of_pos Binary64.exactValue?_ofNat_one one_pos, lnPositive_one]
    exact if_pos rfl
  have second : power (Binary64.round (-1)) (.ofModel (.pack (.infinity .positive))) = .error .complexResult := rfl
  rw [unsnappedRoot, power_zero reciprocal] at root
  dsimp only [bind, Except.bind, pure, Except.pure] at root
  rw [kept] at root
  obtain rfl := Except.ok.inj root
  refine (snappedRoot_cases a _ _).resolve_right ?_
  rintro ⟨raised, result, -, -⟩
  split at result
  · cases result.symm.trans second
  · cases result.symm.trans first

theorem noiseRemoved_of_finite (known : exactValue? a = some q) (degree : exactValue? y = some b) (above : 1 < b)
    (signed : RootDefined q b) (root : unsnappedRoot a y = .ok u) : NoiseRemoved a (snappedRoot a y u) u := by
  rcases lt_trichotomy q 0 with negative | rfl | positive
  · obtain ⟨n, odd, rfl⟩ := signed negative
    have opposite := Binary64.exactValue?_neg known
    have positive := neg_pos.mpr negative
    have mirrored := unsnappedRoot_negate opposite positive.ne' y
    rw [Binary64.negate_negate, root] at mirrored
    cases root' : unsnappedRoot (-a) y with
    | error e =>
      rw [root'] at mirrored
      cases mirrored
    | ok v =>
      rw [root'] at mirrored
      obtain rfl := Except.ok.inj mirrored
      obtain ⟨e, estimate, rfl⟩ := unsnappedRoot_of_positive opposite positive root'
      have removed := (noiseRemoved_of_positive opposite positive degree above estimate).negate opposite positive.ne'
      rw [← snappedRoot_negate degree odd, Binary64.negate_negate] at removed
      exact removed
  · obtain rfl := Except.ok.inj (root.symm.trans (unsnappedRoot_of_zero known degree above))
    rcases snappedRoot_cases a y 0 with kept | ⟨-, -, -, moved⟩
    · exact .inl kept
    · exact .inl (moved.trans rfl)
  · obtain ⟨e, estimate, rfl⟩ := unsnappedRoot_of_positive known positive root
    exact noiseRemoved_of_positive known positive degree above estimate

theorem noiseRemoved_nthroot (degree : 1 ≤ y) (result : nthroot a y = .ok r) :
    ∃ u, unsnappedRoot a y = .ok u ∧ NoiseRemoved a r u := by
  rw [nthroot_eq] at result
  split at result
  · cases result
  split at result
  · cases result
  rename_i notZero signed
  cases root : unsnappedRoot a y with
  | error e =>
    rw [root] at result
    cases result
  | ok u =>
    rw [root] at result
    obtain rfl := Except.ok.inj result
    refine ⟨u, rfl, ?_⟩
    rcases snappedRoot_cases a y u with kept | ⟨raised, -, test, -⟩
    · exact .inl kept
    obtain ⟨-, q, -, known, -⟩ := near_of_test test
    by_cases finite : y.isFinite = true
    · obtain ⟨b, value⟩ := Binary64.isFinite_iff_exactValue?.mp finite
      rw [even_guard_iff known value, not_not] at signed
      rcases ((Binary64.le_iff_value_le Binary64.exactValue?_ofNat_one value).mp degree).eq_or_lt with rfl | above
      · obtain rfl := (Binary64.eq_or_zero_of_exactValue? value Binary64.exactValue?_ofNat_one).resolve_right one_ne_zero
        exact noiseRemoved_of_degree_one known root
      · exact noiseRemoved_of_finite known value above signed root
    · exact .inl (snappedRoot_of_infinite (infinite_of_one_le degree finite) root)

end Roots

section SquareRoots

variable {k : ℤ} {p v : ℚ}

theorem powerNear_square (square : exactValue? z = nearestReal? (k * k)) (known : exactValue? z = some p) (nonzero : k ≠ 0) :
    PowerNear (k.natAbs : ℕ) 2 p := by
  have error := Binary64.roundoff_pos
  have first : (1 : ℚ) ≤ k * k := by exact_mod_cast (Int.one_le_abs (mul_ne_zero nonzero nonzero)).trans_eq (abs_mul_self k)
  have magnitude : ((k.natAbs : ℕ) : ℝ) = |(k : ℝ)| := by rw [Nat.cast_natAbs, Int.cast_abs]
  have least : 0 ≤ Real.log |(k : ℝ)| := Real.log_nonneg (by exact_mod_cast Int.one_le_abs nonzero)
  rw [Binary64.eq_rounded (square.symm.trans known)]
  constructor
  · calc (1 : ℚ) = rounded 1 := Binary64.representable_one.rounded_eq.symm
      _ ≤ rounded (k * k) := Binary64.rounded_mono first
  · obtain ⟨-, close⟩ := Binary64.abs_log_rounded_sub_le
      ((zpow_le_one_of_nonpos₀ one_le_two (by norm_num)).trans first : (2 : ℚ) ^ (-1022 : ℤ) ≤ k * k)
    rw [Rat.cast_natCast, magnitude, Real.log_abs]
    rw [Real.log_abs] at least
    push_cast at close ⊢
    have double : Real.log (k * k) = 2 * Real.log k := by
      rw [← sq, Real.log_pow]
      norm_num
    rw [double] at close
    refine close.trans ?_
    nlinarith

theorem unsnappedSqrt_eq_ok (root : unsnappedSqrt a = .ok u) :
    ∃ e, power a (1 / 2) = .ok e ∧ u = Binary64.roundShown (newtonStep e a 2) := by
  have half : (1 / 2 : Float) = 0.5 := by
    have quotient := Binary64.exactValue?_half Binary64.exactValue?_ofNat_one
      ((zpow_le_zpow_right₀ one_le_two (by norm_num : (-1022 : ℤ) ≤ -1)).trans_eq (by norm_num))
    exact (Binary64.eq_or_zero_of_exactValue? quotient exactValue?_half_exponent).resolve_right (by norm_num)
  rw [unsnappedSqrt, ← half] at root
  cases estimate : power a (1 / 2) with
  | error e =>
    rw [estimate] at root
    cases root
  | ok e =>
    rw [estimate] at root
    exact ⟨e, rfl, (Except.ok.inj root).symm⟩

theorem sqrt_near_of_square (known : exactValue? a = some q) (root : unsnappedSqrt a = .ok u)
    (value : exactValue? u = some v) (half : |(k : ℚ) - v| ≤ 1 / 2) (nonzero : k ≠ 0) (last : |k| ≤ 2 ^ 53)
    (square : PowerNear (k.natAbs : ℕ) 2 p) (test : |p - q| ≤ 1 / 10 ^ 10 + 1 / 10 ^ 26) :
    |(k : ℝ) - v| < 1 / 10 ^ 10 + 1 / 10 ^ 12 * |(v : ℝ)| := by
  have two : exactValue? 2 = some 2 := Binary64.exactValue?_two
  obtain ⟨e, estimate, rfl⟩ := unsnappedSqrt_eq_ok root
  obtain ⟨z, refined, close⟩ := root_near_of_powerNear known two one_lt_two estimate
    (m := k.natAbs) (by omega) (by rw [Int.abs_eq_natAbs] at last; omega) (by norm_num) square test
  have first : (1 : ℝ) ≤ (k.natAbs : ℕ) := by exact_mod_cast Int.natAbs_pos.mpr nonzero
  push_cast at close
  obtain ⟨lower, upper⟩ := abs_le.mp close
  have positive : |(z : ℝ)| = z := abs_of_pos (by linarith)
  obtain ⟨w, shown, error⟩ := Binary64.near_roundShown refined
  obtain rfl := Option.some.inj (value.symm.trans shown)
  rw [positive, Binary64.roundoff_eq] at error
  obtain ⟨lower', upper'⟩ := abs_le.mp error
  have half' : |(k : ℝ) - v| ≤ 1 / 2 := by
    have cast := Rat.cast_le (K := ℝ) |>.mpr half
    push_cast at cast
    exact cast
  obtain ⟨lower'', upper''⟩ := abs_le.mp half'
  -- the root is positive, and with it the whole number
  have above : (0 : ℝ) < k := by
    by_contra notAbove
    have below : (k : ℝ) ≤ -1 := by
      have notPositive : k ≤ 0 := by exact_mod_cast not_lt.mp notAbove
      exact_mod_cast (by omega : k ≤ -1)
    linarith
  have same : ((k.natAbs : ℕ) : ℝ) = k := by rw [Nat.cast_natAbs, Int.cast_abs, abs_of_pos above]
  rw [same] at first close lower upper
  have size : |(v : ℝ)| = v := abs_of_pos (by linarith)
  rw [size]
  calc |(k : ℝ) - v| ≤ |(k : ℝ) - z| + |(v : ℝ) - z| := by
        rw [abs_sub_comm (v : ℝ) z]
        exact abs_sub_le _ _ _
    _ ≤ (1 / 10 ^ 10 + 1 / 10 ^ 18) / 2 + 1 / 2 * (1 / 10 ^ 12) * k +
        (1 / (2 * 10 ^ 10) + 1 / 10 ^ 20 + 3 * (1 / 2 ^ 53) * z) :=
        add_le_add close error
    _ < 1 / 10 ^ 10 + 1 / 10 ^ 12 * v := by linarith

theorem noiseRemoved_sqrt (result : sqrt a = .ok r) : ∃ u, unsnappedSqrt a = .ok u ∧ NoiseRemoved a r u := by
  unfold sqrt at result
  split at result
  · cases result
  cases root : unsnappedSqrt a with
  | error e =>
    rw [root] at result
    cases result
  | ok u =>
    rw [root] at result
    obtain rfl := Except.ok.inj result
    refine ⟨u, rfl, ?_⟩
    split
    · rename_i test
      rcases Binary64.round_cases u with same | ⟨v, value, short⟩
      · exact .inl same
      have whole := Binary64.exactValue?_round value
      have half := Binary64.abs_halfAway_sub_le v
      obtain ⟨lower, upper⟩ := abs_lt.mp short
      have last := abs_le.mpr (Binary64.halfAway_bounds (i := -2 ^ 53) (j := 2 ^ 53) (by exact_mod_cast lower.le)
        (by exact_mod_cast upper.le))
      have square := Binary64.exactValue?_mul whole whole
      obtain ⟨p, q, raised, known, apart⟩ := near_of_test test
      refine .inr ⟨_, v, whole, value, ?_⟩
      generalize halfAway v = k at whole half last square ⊢
      rcases eq_or_ne k 0 with rfl | nonzero
      · rw [Int.cast_zero, zero_mul, Binary64.nearestReal?_zero] at square
        rw [Int.cast_zero, zero_sub, abs_neg] at half
        exact .inr ⟨Int.cast_zero, half, test_zero square test⟩
      · left
        rw [← Rat.cast_lt (K := ℝ)]
        push_cast
        exact sqrt_near_of_square known root value half nonzero last (powerNear_square square raised nonzero) apart
    · exact .inl rfl

end SquareRoots

/-- Moving roots to whole numbers changes nothing but their noise, except of radicands below the tolerance. -/
theorem snapped_roots_near_unsnapped :
    (∀ a r, sqrt a = .ok r → ∃ u, unsnappedSqrt a = .ok u ∧ NoiseRemoved a r u) ∧
      ∀ a n r, n ≥ 1 → nthroot a n = .ok r → ∃ u, unsnappedRoot a n = .ok u ∧ NoiseRemoved a r u :=
  ⟨fun _ _ result => noiseRemoved_sqrt result, fun _ _ _ degree result => noiseRemoved_nthroot degree result⟩

/-- The root of 27 with the degree 1.5 is nine but for its last digits. -/
theorem snapped_roots_near_unsnapped_twenty_seven :
    sqrt 2 = .ok 1.4142135624 ∧ (1.5 : Float) ≥ 1 ∧ nthroot 27 1.5 = .ok 9 ∧
      (∃ u, unsnappedSqrt 2 = .ok u ∧ NoiseRemoved 2 1.4142135624 u) ∧
      ∃ u, unsnappedRoot 27 1.5 = .ok u ∧ NoiseRemoved 27 9 u := by
  have squareRoot : sqrt 2 = .ok 1.4142135624 := eq_ok_of_toOption (by decide +kernel)
  have degree : (1.5 : Float) ≥ 1 := by decide +kernel
  have root : nthroot 27 1.5 = .ok 9 := eq_ok_of_toOption (by decide +kernel)
  exact ⟨squareRoot, degree, root, snapped_roots_near_unsnapped.1 2 _ squareRoot,
    snapped_roots_near_unsnapped.2 27 1.5 _ degree root⟩

/-- By more than the tolerance: the square root of a radicand below it becomes zero, and great roots have noise. -/
theorem roots_moved_past_tolerance :
    (∃ r u, sqrt 1e-11 = .ok r ∧ unsnappedSqrt 1e-11 = .ok u ∧
      ∃ p ∈ exactValue? r, ∃ q ∈ exactValue? u, 1 / 10 ^ 10 ≤ |p - q|) ∧
    ∃ r u, nthroot 1000000000.0000002 1.5 = .ok r ∧ unsnappedRoot 1000000000.0000002 1.5 = .ok u ∧
      ∃ p ∈ exactValue? r, ∃ q ∈ exactValue? u, 1 / 10 ^ 10 ≤ |p - q| := by
  refine ⟨⟨0, 3.1623e-06, ?_, ?_, by decide +kernel⟩, ⟨1000000, 999999.9999999997, ?_, ?_, by decide +kernel⟩⟩
  all_goals exact eq_ok_of_toOption (by decide +kernel)

end Elementary

end Calculator
