import Calculator.Proofs.Binary64.Numbers
import Calculator.Proofs.Elementary.Parity

namespace Calculator.Elementary

open Binary64 (exactValue? toInt? natPow abs)

variable {x y : Float} {a b : ℚ} {n : ℤ}

section Snapping

def snappedRoot (a n root : Float) : Float :=
  match power (Binary64.round root) n with
  | .ok raised => if abs (raised - a) < rootTolerance then Binary64.round root else root
  | .error _ => root

theorem nthroot_eq (a n : Float) : nthroot a n =
    if n == 0 then .error .divisionByZero
    else if a < 0 && !isOddWhole n then .error .evenRootOfNegative
    else (unsnappedRoot a n).map (snappedRoot a n) := by
  unfold nthroot
  congr 2
  cases unsnappedRoot a n with
  | error e => rfl
  | ok root =>
    dsimp only [bind, Except.bind, Except.map]
    unfold snappedRoot
    cases power (Binary64.round root) n <;> rfl

theorem abs_negate_sub_negate_lt_iff {t : Float} (known : exactValue? t = some b) (x y : Float) :
    abs (-x - -y) < t ↔ abs (x - y) < t := by
  have zeros {z w : Float} (first : exactValue? z = some 0) (second : exactValue? w = some 0) : abs z < t ↔ abs w < t := by
    rw [Binary64.lt_iff_value_lt (Binary64.exactValue?_abs first) known,
      Binary64.lt_iff_value_lt (Binary64.exactValue?_abs second) known]
  rcases Binary64.negate_sub_negate x y with opposite | ⟨first, second⟩
  · rw [opposite]
    rcases Binary64.abs_negate (x - y) with same | zero
    · rw [same]
    · exact zeros (neg_zero (G := ℚ) ▸ Binary64.exactValue?_neg zero) zero
  · exact zeros first second

variable (degree : exactValue? y = some (n : ℚ)) (odd : Odd n)
include degree odd

theorem snappedRoot_negate (x root : Float) : snappedRoot (-x) y (-root) = -snappedRoot x y root := by
  obtain ⟨t, tolerance⟩ := Binary64.isFinite_iff_exactValue?.mp (by rfl : rootTolerance.isFinite = true)
  unfold snappedRoot
  rw [Binary64.round_negate, power_negate degree, if_neg (Int.not_even_iff_odd.mpr odd)]
  cases power (Binary64.round root) y with
  | error e => rfl
  | ok raised =>
    simp only [Except.map, abs_negate_sub_negate_lt_iff tolerance]
    exact (apply_ite Neg.neg _ _ _).symm

end Snapping

theorem nthroot_of_odd (known : exactValue? x = some a) (degree : exactValue? y = some (n : ℚ)) (odd : Odd n) :
    nthroot x y = (unsnappedRoot x y).map (snappedRoot x y) := by
  have notZero : ¬ (y == 0) = true := by
    rw [Binary64.beq_zero_iff degree, Int.cast_eq_zero]
    rintro rfl
    exact absurd odd (by decide)
  have notEven : ¬ (x < 0 && !isOddWhole y) = true := by
    rw [even_guard_iff known degree, not_not]
    exact fun _ => ⟨n, odd, rfl⟩
  rw [nthroot_eq, if_neg notZero, if_neg notEven]

section Opposite

variable (known : exactValue? x = some a) (nonzero : a ≠ 0)
include known nonzero

theorem abs_negate_of_ne_zero : abs (-x) = abs x := by
  apply (Binary64.abs_negate x).resolve_right
  rw [known, Option.some_inj]
  exact nonzero

theorem unsnappedRoot_negate (y : Float) : unsnappedRoot (-x) y = (unsnappedRoot x y).map (-·) := by
  unfold unsnappedRoot
  rw [abs_negate_of_ne_zero known nonzero]
  cases power (abs x) (1 / y) with
  | error e => rfl
  | ok estimate =>
    have first := Binary64.lt_zero_iff known
    have second := Binary64.lt_zero_iff (Binary64.exactValue?_neg known)
    apply congrArg Except.ok
    rcases lt_or_gt_of_ne nonzero with below | above
    · rw [if_pos (first.mpr below), if_neg (second.not.mpr (neg_pos.mpr below).not_gt)]
      exact (Binary64.negate_negate _).symm
    · rw [if_neg (first.not.mpr above.not_gt), if_pos (second.mpr (neg_neg_iff_pos.mpr above))]

theorem nthroot_negate (degree : exactValue? y = some (n : ℚ)) (odd : Odd n) :
    nthroot (-x) y = (nthroot x y).map (-·) := by
  have opposite := Binary64.exactValue?_neg known
  rw [nthroot_of_odd known degree odd, nthroot_of_odd opposite degree odd,
    unsnappedRoot_negate known nonzero]
  cases unsnappedRoot x y with
  | error e => rfl
  | ok root => exact congrArg Except.ok (snappedRoot_negate degree odd x root)

end Opposite

section Numbers

theorem abs_lt_of_natPow {k : ℕ} (known : exactValue? x = some a) (finite : (natPow x k).isFinite = true)
    (several : 2 ≤ k) : |a| < 2 ^ 512 := by
  have square := Binary64.isFinite_square_of_natPow finite several
  rw [Binary64.isFinite_iff_exactValue?, Binary64.exactValue?_mul known known] at square
  obtain ⟨q, rounds⟩ := square
  unfold Binary64.nearestReal? at rounds
  split at rounds
  · rename_i small
    by_contra large
    have great : (2 : ℚ) ^ 1024 ≤ |a * a| := by
      rw [abs_mul, pow_add 2 512 512]
      exact mul_self_le_mul_self (by positivity) (not_lt.mp large)
    exact small.not_ge (by exact_mod_cast Binary64.le_abs_rounded (e := 1024) (by decide) (by exact_mod_cast great))
  · cases rounds

variable (degree : exactValue? y = some (n : ℚ)) (odd : Odd n)
include degree odd

theorem natAbs_degree_le : n.natAbs ≤ maxIntegerExponent := by
  by_contra great
  exact Int.not_even_iff_odd.mpr odd (even_of_great degree great)

theorem toInt?_degree_sub_one : toInt? (y - 1) = some (n - 1) := by
  have short := natAbs_degree_le degree odd
  unfold maxIntegerExponent at short
  refine Binary64.toInt?_sub (Binary64.toInt?_eq_some_iff.mpr degree) (by rfl) ?_
  rw [Int.abs_eq_natAbs]
  omega

theorem isNaN_corrected {estimate lower : Float} (known : exactValue? x = some a)
    (start : exactValue? estimate = some b) (several : 2 ≤ n) (result : power estimate (y - 1) = .ok lower)
    (divides : ¬ (lower == 0) = true) : (((y - 1) * estimate + x / lower) / y).isNaN = false := by
  have short := natAbs_degree_le degree odd
  obtain ⟨k, natural⟩ : ∃ k : ℕ, n - 1 = k := Int.eq_ofNat_of_zero_le (by omega)
  have exponent := toInt?_degree_sub_one degree odd
  rw [natural] at exponent
  have counted : 2 ≤ k := by
    obtain ⟨j, rfl⟩ := odd
    omega
  rw [power_of_natural exponent (by omega)] at result
  unfold finite at result
  split at result
  · rename_i inRange
    obtain rfl := Except.ok.inj result
    obtain ⟨c, power⟩ := Binary64.isFinite_iff_exactValue?.mp inRange
    have small := abs_lt_of_natPow start inRange counted
    have product : |((k : ℤ) : ℚ) * b| ≤ 2 ^ (565 : ℤ) := by
      have digits : ((k : ℕ) : ℚ) ≤ 2 ^ 53 := by
        unfold maxIntegerExponent at short
        exact_mod_cast (by omega : k ≤ 2 ^ 53)
      rw [Int.cast_natCast, abs_mul, Nat.abs_cast, show (565 : ℤ) = (53 + 512 : ℕ) from rfl, zpow_natCast, pow_add]
      exact mul_le_mul digits small.le (abs_nonneg b) (by positivity)
    have multiple := Binary64.exactValue?_mul (Binary64.toInt?_eq_some_iff.mp exponent) start
    rw [Binary64.nearestReal?_of_abs_le product (by decide) (by decide)] at multiple
    rw [Binary64.beq_zero_iff power] at divides
    have quotient := Binary64.isNaN_div (Binary64.isNaN_of_exactValue? known) power divides
    have nonzero : (n : ℚ) ≠ 0 := by exact_mod_cast (by omega : n ≠ 0)
    exact Binary64.isNaN_div (Binary64.isNaN_add multiple quotient) degree nonzero
  · cases result

theorem isNaN_newtonStep {estimate : Float} (known : exactValue? x = some a) (start : exactValue? estimate = some b) :
    (newtonStep estimate x y).isNaN = false := by
  have kept := Binary64.isNaN_of_exactValue? start
  have two : exactValue? 2 = some ((2 : ℤ) : ℚ) := Binary64.toInt?_eq_some_iff.mp (by rfl)
  unfold newtonStep
  split
  · exact kept
  · rename_i refined
    cases result : power estimate (y - 1) with
    | error e => exact kept
    | ok lower =>
      dsimp only
      split
      · exact kept
      · rename_i divides
        have several : 2 ≤ n := by
          simp only [Bool.or_eq_true, decide_eq_true_iff, not_or, Binary64.lt_iff_value_lt degree two] at refined
          exact_mod_cast not_lt.mp refined.1.2
        exact isNaN_corrected degree odd known start several result divides

omit degree odd in
theorem isNaN_snappedRoot {root : Float} (number : root.isNaN = false) (x y : Float) :
    (snappedRoot x y root).isNaN = false := by
  unfold snappedRoot
  split
  · split
    · exact Binary64.isNaN_round number
    · exact number
  · exact number

theorem nthroot_cases (known : exactValue? x = some a) (nonzero : a ≠ 0) :
    nthroot x y = .error .overflow ∨ ∃ z, z.isNaN = false ∧ nthroot x y = .ok z := by
  have magnitude := Binary64.exactValue?_abs known
  rw [nthroot_of_odd known degree odd, unsnappedRoot]
  rcases finiteOrOverflow_power_of_pos magnitude (abs_pos.mpr nonzero) (1 / y) with failed | ⟨estimate, result, finite⟩
  · rw [failed]
    exact .inl rfl
  · obtain ⟨b, start⟩ := Binary64.isFinite_iff_exactValue?.mp finite
    have number := isNaN_newtonStep degree odd magnitude start
    rw [result]
    refine .inr ⟨_, isNaN_snappedRoot ?_ x y, rfl⟩
    split
    · rw [Binary64.isNaN_negate, number]
    · exact number

end Numbers

/-- Both are too great, or they are opposite numbers to the bit. -/
def Opposite (first second : Except DomainError Float) : Prop :=
  (first = .error .overflow ∧ second = .error .overflow) ∨
    ∃ z, z.isNaN = false ∧ first = .ok z ∧ second = .ok (-z)

theorem cbrt_zero (zero : exactValue? x = some 0) : cbrt x = .ok 0 := by
  rcases Binary64.eq_zero_or_negative_zero zero with rfl | rfl
  · exact eq_ok_of_toOption (by decide +kernel)
  · exact eq_ok_of_toOption (by decide +kernel)

theorem opposite_nthroot (known : exactValue? x = some a) (nonzero : a ≠ 0) (degree : exactValue? y = some (n : ℚ))
    (odd : Odd n) : Opposite (nthroot x y) (nthroot (-x) y) := by
  rw [nthroot_negate known nonzero degree odd]
  rcases nthroot_cases degree odd known nonzero with failed | ⟨z, number, result⟩
  · rw [failed]
    exact .inl ⟨rfl, rfl⟩
  · rw [result]
    exact .inr ⟨z, number, rfl, rfl⟩

/-- Roots with an odd degree, and so cube roots, are odd functions. The cube root of a zero is zero. -/
theorem roots_of_opposite_radicands (known : exactValue? x = some a) (degree : exactValue? y = some (n : ℚ))
    (odd : Odd n) :
    (a ≠ 0 → Opposite (nthroot x y) (nthroot (-x) y) ∧ Opposite (cbrt x) (cbrt (-x))) ∧
      (a = 0 → cbrt x = .ok 0 ∧ cbrt (-x) = .ok 0) := by
  have three : exactValue? 3 = some ((3 : ℤ) : ℚ) := Binary64.toInt?_eq_some_iff.mp (by rfl)
  constructor
  · intro nonzero
    exact ⟨opposite_nthroot known nonzero degree odd, opposite_nthroot known nonzero three (by decide)⟩
  · rintro rfl
    exact ⟨cbrt_zero known, cbrt_zero (neg_zero (G := ℚ) ▸ Binary64.exactValue?_neg known)⟩

/-- The root is small, so the whole number next to it is a zero, and that has no power with a negative degree. -/
theorem roots_of_opposite_radicands_negative_degree :
    exactValue? (twoPow 700) = some (2 ^ (700 : ℤ)) ∧ exactValue? (-3) = some ((-3 : ℤ) : ℚ) ∧
      Odd (-3 : ℤ) ∧ (2 ^ (700 : ℤ) : ℚ) ≠ 0 ∧
      Opposite (nthroot (twoPow 700) (-3)) (nthroot (-twoPow 700) (-3)) := by
  have known : exactValue? (twoPow 700) = some (2 ^ (700 : ℤ)) := exactValue?_twoPow (by decide) (by decide)
  have degree : exactValue? (-3) = some ((-3 : ℤ) : ℚ) := Binary64.toInt?_eq_some_iff.mp (by rfl)
  have odd : Odd (-3 : ℤ) := by decide
  have nonzero : (2 ^ (700 : ℤ) : ℚ) ≠ 0 := (Binary64.unit_pos _).ne'
  exact ⟨known, degree, odd, nonzero, ((roots_of_opposite_radicands known degree odd).1 nonzero).1⟩

end Calculator.Elementary
