import Calculator.Elementary.Root
import Calculator.Proofs.Binary64.Reciprocal
import Calculator.Proofs.Binary64.Remainder
import Calculator.Proofs.Elementary.Exponential
import Calculator.Proofs.Elementary.Power

namespace Calculator.Elementary

open Binary64 (exactValue? toInt? abs)

variable {x y : Float} {a b : ℚ}

def ResultOrOverflow (outcome : Except DomainError Float) : Prop :=
  outcome = .error .overflow ∨ ∃ z, outcome = .ok z

/-- Each error is raised exactly on its domain, and outside of all of them the outcome is as it should be. -/
def Raises (outcome : Except DomainError Float) (domains : List (DomainError × Prop))
    (otherwise : Except DomainError Float → Prop) : Prop :=
  (∀ domain ∈ domains, outcome = .error domain.1 ↔ domain.2) ∧
    ((∀ domain ∈ domains, ¬ domain.2) → otherwise outcome)

section Outcomes

variable {outcome : Except DomainError Float} {domains : List (DomainError × Prop)}
variable {otherwise : Except DomainError Float → Prop}

theorem FiniteOrOverflow.result (finite : FiniteOrOverflow outcome) : ResultOrOverflow outcome :=
  finite.imp_right fun ⟨z, result, _⟩ => ⟨z, result⟩

theorem ResultOrOverflow.bind {next : Float → Except DomainError Float} (inner : ResultOrOverflow outcome)
    (following : ∀ z, ∃ w, next z = .ok w) : ResultOrOverflow (outcome >>= next) := by
  rcases inner with failed | ⟨z, result⟩
  · rw [failed]
    exact .inl rfl
  · rw [result]
    exact .inr (following z)

theorem ResultOrOverflow.eq_overflow {e : DomainError} (answers : ResultOrOverflow outcome)
    (raised : outcome = .error e) : e = .overflow := by
  rcases answers with failed | ⟨z, result⟩
  · exact Except.error.inj (raised.symm.trans failed)
  · cases raised.symm.trans result

theorem raises_of_cases (raised : ∀ domain ∈ domains, domain.2 → outcome = .error domain.1)
    (answered : (∀ domain ∈ domains, ¬ domain.2) → otherwise outcome)
    (result : otherwise outcome → ResultOrOverflow outcome)
    (distinct : (DomainError.overflow :: domains.map Prod.fst).Nodup) : Raises outcome domains otherwise := by
  refine ⟨fun domain member => ⟨fun error => ?_, raised domain member⟩, answered⟩
  obtain ⟨other, distinct⟩ := List.nodup_cons.mp distinct
  by_contra outside
  by_cases inside : ∃ domain ∈ domains, domain.2
  · obtain ⟨domain', member', holds⟩ := inside
    have same := Except.error.inj (error.symm.trans (raised domain' member' holds))
    rw [List.inj_on_of_nodup_map distinct member member' same] at outside
    exact outside holds
  · have overflow := (result (answered fun d m holds => inside ⟨d, m, holds⟩)).eq_overflow error
    exact other (overflow ▸ List.mem_map_of_mem member)

theorem raises_two {e f : DomainError} {p q : Prop} (first : p → outcome = .error e) (second : q → outcome = .error f)
    (answered : ¬ p → ¬ q → otherwise outcome) (result : otherwise outcome → ResultOrOverflow outcome)
    (distinct : [.overflow, e, f].Nodup) : Raises outcome [(e, p), (f, q)] otherwise := by
  refine raises_of_cases ?_ ?_ result distinct
  · intro domain member
    rcases List.mem_pair.mp member with rfl | rfl
    · exact first
    · exact second
  · intro outside
    exact answered (outside (e, p) (by simp)) (outside (f, q) (by simp))

end Outcomes

section Power

def IsPowerOfZero (positive : Prop) (outcome : Except DomainError Float) : Prop :=
  (positive → FiniteOrOverflow outcome) ∧ (¬ positive → outcome = .error .divisionByZero)

theorem isPowerOfZero_realPower (zero : exactValue? x = some 0) (y : Float) :
    IsPowerOfZero (0 < y) (realPower x y) := by
  rw [realPower_zero_base zero]
  constructor
  · intro positive
    rw [if_pos positive]
    exact finiteOrOverflow_of_exactValue? Binary64.exactValue?_ofNat_zero
  · exact fun notPositive => if_neg notPositive

theorem finiteOrOverflow_integerPower {n : ℤ} (known : exactValue? x = some a) (defined : a ≠ 0 ∨ 0 ≤ n) :
    FiniteOrOverflow (integerPower x n) := by
  unfold integerPower
  split
  · rename_i negative
    have nonzero : ¬ (x == 0) = true := by
      rw [Binary64.beq_zero_iff known]
      exact defined.resolve_right negative.not_ge
    rw [if_neg nonzero]
    exact finiteOrOverflow_finite _
  · exact finiteOrOverflow_finite _

theorem isPowerOfZero_integerPower {n : ℤ} (zero : exactValue? x = some 0) (nonzero : n ≠ 0) :
    IsPowerOfZero (0 < n) (integerPower x n) := by
  constructor
  · intro positive
    exact finiteOrOverflow_integerPower zero (.inr positive.le)
  · intro notPositive
    have negative : n < 0 := by omega
    rw [integerPower, if_pos negative, if_pos ((Binary64.beq_zero_iff zero).mpr rfl)]

section ZeroBase

variable (zero : exactValue? x = some 0)
include zero

theorem isPowerOfZero_power (nonzero : exactValue? y ≠ some 0) : IsPowerOfZero (0 < y) (power x y) := by
  cases exponent : toInt? y with
  | some n =>
    by_cases bound : n.natAbs ≤ maxIntegerExponent
    · have value := Binary64.toInt?_eq_some_iff.mp exponent
      rw [value, Ne, Option.some_inj, Int.cast_eq_zero] at nonzero
      rw [power_of_whole_exponent exponent bound, Binary64.zero_lt_iff value, Int.cast_pos]
      exact isPowerOfZero_integerPower zero nonzero
    · have magnitude := Binary64.exactValue?_abs zero
      rw [abs_zero] at magnitude
      rw [power_of_great_exponent exponent bound]
      exact isPowerOfZero_realPower magnitude y
  | none =>
    have nonnegative : ¬ x < 0 := fun below => lt_irrefl _ ((Binary64.lt_zero_iff zero).mp below)
    rw [power_of_fraction exponent, if_neg nonnegative]
    exact isPowerOfZero_realPower zero y

variable (value : exactValue? y = some b) (nonzero : b ≠ 0)
include value nonzero

theorem isPowerOfZero_power_of_value : IsPowerOfZero (0 < b) (power x y) := by
  rw [← Binary64.zero_lt_iff value]
  apply isPowerOfZero_power zero
  rw [value, Ne, Option.some_inj]
  exact nonzero

theorem isPowerOfZero_reciprocal : IsPowerOfZero (0 < b) (power x (1 / y)) := by
  rw [← Binary64.zero_lt_reciprocal_iff value nonzero]
  exact isPowerOfZero_power zero (Binary64.reciprocal_ne_zero value nonzero)

end ZeroBase

section NonzeroBase

variable (known : exactValue? x = some a)
include known

theorem finiteOrOverflow_power_of_whole {n : ℤ} (nonzero : a ≠ 0) (exponent : toInt? y = some n) :
    FiniteOrOverflow (power x y) := by
  by_cases bound : n.natAbs ≤ maxIntegerExponent
  · rw [power_of_whole_exponent exponent bound]
    exact finiteOrOverflow_integerPower known (.inl nonzero)
  · rw [power_of_great_exponent exponent bound, realPower_of_pos (Binary64.exactValue?_abs known) (abs_pos.mpr nonzero)]
    exact finiteOrOverflow_exp _

theorem finiteOrOverflow_power_of_pos (positive : 0 < a) (y : Float) : FiniteOrOverflow (power x y) := by
  cases exponent : toInt? y with
  | some n => exact finiteOrOverflow_power_of_whole known positive.ne' exponent
  | none =>
    have nonnegative : ¬ x < 0 := fun below => positive.not_gt ((Binary64.lt_zero_iff known).mp below)
    rw [power_of_fraction exponent, if_neg nonnegative, realPower_of_pos known positive]
    exact finiteOrOverflow_exp _

theorem power_complex (negative : a < 0) (value : exactValue? y = some b) (fraction : ¬ ∃ n : ℤ, b = n) :
    power x y = .error .complexResult := by
  have notWhole : toInt? y = none := by
    rw [Option.eq_none_iff_forall_ne_some]
    intro n whole
    rw [Binary64.toInt?_eq_some_iff, value, Option.some_inj] at whole
    exact fraction ⟨n, whole⟩
  rw [power_of_fraction notWhole, if_pos ((Binary64.lt_zero_iff known).mpr negative)]

end NonzeroBase

end Power

section Roots

theorem resultOrOverflow_sqrt (known : exactValue? x = some a) (nonnegative : 0 ≤ a) : ResultOrOverflow (sqrt x) := by
  have notNegative : ¬ x < 0 := by
    rw [Binary64.lt_zero_iff known]
    exact nonnegative.not_gt
  have inner : FiniteOrOverflow (power x 0.5) := by
    rcases nonnegative.lt_or_eq with positive | rfl
    · exact finiteOrOverflow_power_of_pos known positive _
    · have half : (0 : Float) < 0.5 := by decide
      exact (isPowerOfZero_power known fun none => lt_irrefl 0 ((Binary64.zero_lt_iff none).mp half)).1 half
  rw [sqrt, if_neg notNegative]
  apply ResultOrOverflow.bind
  · exact inner.result.bind fun z => ⟨_, rfl⟩
  · exact fun root => ⟨_, rfl⟩

theorem abs_remainder_two_iff (n : ℤ) : |(n - 2 * Binary64.towardZero (n / 2) : ℚ)| = 1 ↔ Odd n := by
  have near := Binary64.abs_sub_towardZero_lt (n / 2)
  generalize Binary64.towardZero (n / 2) = t at near
  have doubled : (n - 2 * t : ℚ) = 2 * (n / 2 - t) := by ring
  have small : |(n - 2 * t : ℚ)| < 2 := by
    rw [doubled, abs_mul, abs_two]
    linarith
  have rest : (n - 2 * t : ℚ) = (n - 2 * t : ℤ) := by
    push_cast
    rfl
  rw [rest] at small ⊢
  norm_cast at small ⊢
  rw [abs_lt] at small
  rw [abs_eq zero_le_one, Int.odd_iff]
  omega

theorem isOddWhole_iff (known : exactValue? y = some b) : isOddWhole y = true ↔ ∃ n : ℤ, Odd n ∧ b = n := by
  have two : exactValue? 2 = some 2 := Binary64.toInt?_eq_some_iff.mp (rfl : toInt? 2 = some 2)
  have remainder := Binary64.exactValue?_abs (Binary64.exactValue?_remainder known two two_ne_zero)
  rw [isOddWhole, Bool.and_eq_true, Binary64.hasNoFraction_iff known,
    Binary64.beq_iff_value_eq remainder Binary64.exactValue?_ofNat_one]
  constructor
  · rintro ⟨⟨n, rfl⟩, one⟩
    exact ⟨n, (abs_remainder_two_iff n).mp one, rfl⟩
  · rintro ⟨n, odd, rfl⟩
    exact ⟨⟨n, rfl⟩, (abs_remainder_two_iff n).mpr odd⟩

def RootDefined (a b : ℚ) : Prop := a < 0 → ∃ n : ℤ, Odd n ∧ b = n

section Degree

variable (known : exactValue? x = some a) (degree : exactValue? y = some b)
include known degree

theorem even_guard_iff : (x < 0 && !isOddWhole y) = true ↔ ¬ RootDefined a b := by
  rw [Bool.and_eq_true, decide_eq_true_iff, Bool.not_eq_true', Binary64.lt_zero_iff known, ← Bool.not_eq_true,
    isOddWhole_iff degree, RootDefined, Classical.not_imp]

theorem nthroot_even (nonzero : b ≠ 0) (even : ¬ RootDefined a b) : nthroot x y = .error .evenRootOfNegative := by
  have notZero : ¬ (y == 0) = true := by rwa [Binary64.beq_zero_iff degree]
  rw [nthroot, if_neg notZero, if_pos ((even_guard_iff known degree).mpr even)]

omit known in
theorem nthroot_zero_degree (zero : b = 0) : nthroot x y = .error .divisionByZero := by
  rw [nthroot, if_pos ((Binary64.beq_zero_iff degree).mpr zero)]

theorem nthroot_of_estimate (nonzero : b ≠ 0) (defined : RootDefined a b) :
    (power (abs x) (1 / y) = .error .divisionByZero → nthroot x y = .error .divisionByZero) ∧
      (ResultOrOverflow (power (abs x) (1 / y)) → ResultOrOverflow (nthroot x y)) := by
  have notZero : ¬ (y == 0) = true := by rwa [Binary64.beq_zero_iff degree]
  have notEven : ¬ (x < 0 && !isOddWhole y) = true := by
    rw [even_guard_iff known degree, not_not]
    exact defined
  rw [nthroot, if_neg notZero, if_neg notEven, unsnappedRoot]
  constructor
  · intro failed
    rw [failed]
    rfl
  · intro inner
    apply ResultOrOverflow.bind
    · exact inner.bind fun estimate => ⟨_, rfl⟩
    · intro root
      dsimp only
      split
      · exact ⟨_, rfl⟩
      · exact ⟨_, rfl⟩

theorem nthroot_of_zero (zero : a = 0) (negative : b < 0) : nthroot x y = .error .divisionByZero := by
  have magnitude := Binary64.exactValue?_abs known
  rw [zero, abs_zero] at magnitude
  apply (nthroot_of_estimate known degree negative.ne fun below => absurd zero below.ne).1
  exact (isPowerOfZero_reciprocal magnitude degree negative.ne).2 negative.not_gt

theorem resultOrOverflow_nthroot (nonzero : b ≠ 0) (defined : RootDefined a b) (finite : ¬ (a = 0 ∧ b < 0)) :
    ResultOrOverflow (nthroot x y) := by
  have magnitude := Binary64.exactValue?_abs known
  apply (nthroot_of_estimate known degree nonzero defined).2
  apply FiniteOrOverflow.result
  by_cases zero : a = 0
  · have positive : 0 < b := nonzero.symm.lt_of_le (not_lt.mp fun negative => finite ⟨zero, negative⟩)
    rw [zero, abs_zero] at magnitude
    exact (isPowerOfZero_reciprocal magnitude degree nonzero).1 positive
  · exact finiteOrOverflow_power_of_pos magnitude (abs_pos.mpr zero) _

end Degree

end Roots

section Logarithm

variable (known : exactValue? x = some a)
include known

theorem log_nonPositive (outside : a ≤ 0) (y : Float) : log x y = .error .nonPositiveLogarithm := by
  rw [log, if_pos ((Binary64.le_iff_value_le known Binary64.exactValue?_ofNat_zero).mpr outside)]

variable (base : exactValue? y = some b) (positive : 0 < a)
include base positive

theorem log_of_pos :
    log x y = if b ≤ 0 ∨ b = 1 then .error .invalidLogarithmBase else .ok (lnPositive x / lnPositive y) := by
  have above : ¬ x ≤ 0 := by
    rw [Binary64.le_iff_value_le known Binary64.exactValue?_ofNat_zero, not_le]
    exact positive
  have guard : (y ≤ 0 || y == 1) = true ↔ b ≤ 0 ∨ b = 1 := by
    rw [Bool.or_eq_true, decide_eq_true_iff, Binary64.le_iff_value_le base Binary64.exactValue?_ofNat_zero,
      Binary64.beq_iff_value_eq base Binary64.exactValue?_ofNat_one]
  rw [log, if_neg above]
  split
  · rename_i outside
    rw [if_pos (guard.mp outside)]
  · rename_i inside
    have valid := fun outside => inside (guard.mpr outside)
    have positive' : 0 < b := not_le.mp fun below => valid (.inl below)
    rw [if_neg valid, ln_of_pos known positive, ln_of_pos base positive']
    rfl

end Logarithm

section Families

variable (left : exactValue? x = some a) (right : exactValue? y = some b)
include left

theorem raises_sqrt : Raises (sqrt x) [(.negativeSquareRoot, a < 0)] ResultOrOverflow := by
  refine raises_of_cases ?_ ?_ id (by simp)
  · intro domain member negative
    cases List.mem_singleton.mp member
    rw [sqrt, if_pos ((Binary64.lt_zero_iff left).mpr negative)]
  · intro outside
    exact resultOrOverflow_sqrt left (not_lt.mp (outside _ List.mem_cons_self))

include right

theorem raises_power :
    Raises (power x y) [(.divisionByZero, a = 0 ∧ b < 0), (.complexResult, a < 0 ∧ ¬ ∃ n : ℤ, b = n)]
      FiniteOrOverflow := by
  apply raises_two _ _ _ FiniteOrOverflow.result (by decide)
  · rintro ⟨rfl, negative⟩
    exact (isPowerOfZero_power_of_value left right negative.ne).2 negative.not_gt
  · rintro ⟨negative, fraction⟩
    exact power_complex left negative right fraction
  · intro finite real
    rcases lt_trichotomy a 0 with negative | rfl | positive
    · obtain ⟨n, rfl⟩ := not_not.mp fun fraction => real ⟨negative, fraction⟩
      exact finiteOrOverflow_power_of_whole left negative.ne (Binary64.toInt?_eq_some_iff.mpr right)
    · by_cases zero : b = 0
      · rw [power_zero (zero ▸ right)]
        exact finiteOrOverflow_of_exactValue? Binary64.exactValue?_ofNat_one
      · have positive : 0 < b := (Ne.symm zero).lt_of_le (not_lt.mp fun negative => finite ⟨rfl, negative⟩)
        exact (isPowerOfZero_power_of_value left right zero).1 positive
    · exact finiteOrOverflow_power_of_pos left positive y

theorem raises_nthroot :
    Raises (nthroot x y) [(.divisionByZero, b = 0 ∨ a = 0 ∧ b < 0),
      (.evenRootOfNegative, b ≠ 0 ∧ a < 0 ∧ ¬ ∃ n : ℤ, Odd n ∧ b = n)] ResultOrOverflow := by
  apply raises_two _ _ _ id (by decide)
  · rintro (zero | ⟨zero, negative⟩)
    · exact nthroot_zero_degree right zero
    · exact nthroot_of_zero left right zero negative
  · rintro ⟨nonzero, negative, even⟩
    exact nthroot_even left right nonzero fun defined => even (defined negative)
  · intro finite real
    obtain ⟨nonzero, finite⟩ := not_or.mp finite
    apply resultOrOverflow_nthroot left right nonzero _ finite
    intro negative
    by_contra even
    exact real ⟨nonzero, negative, even⟩

theorem raises_log :
    Raises (log x y) [(.nonPositiveLogarithm, a ≤ 0), (.invalidLogarithmBase, 0 < a ∧ (b ≤ 0 ∨ b = 1))]
      fun outcome => ∃ z, outcome = .ok z := by
  apply raises_two _ _ _ .inr (by decide)
  · exact fun outside => log_nonPositive left outside y
  · rintro ⟨positive, invalid⟩
    rw [log_of_pos left right positive, if_pos invalid]
  · intro inside valid
    have positive := not_le.mp inside
    rw [log_of_pos left right positive, if_neg fun invalid => valid ⟨positive, invalid⟩]
    exact ⟨_, rfl⟩

end Families

/-- Powers, roots and logarithms of finite reals raise each of their errors exactly on its domain, and no error of a
function used on the way. -/
theorem errors_exactly_on_domains (left : exactValue? x = some a) (right : exactValue? y = some b) :
    Raises (power x y) [(.divisionByZero, a = 0 ∧ b < 0), (.complexResult, a < 0 ∧ ¬ ∃ n : ℤ, b = n)]
      FiniteOrOverflow ∧
    Raises (sqrt x) [(.negativeSquareRoot, a < 0)] ResultOrOverflow ∧
    Raises (nthroot x y) [(.divisionByZero, b = 0 ∨ a = 0 ∧ b < 0),
      (.evenRootOfNegative, b ≠ 0 ∧ a < 0 ∧ ¬ ∃ n : ℤ, Odd n ∧ b = n)] ResultOrOverflow ∧
    Raises (log x y) [(.nonPositiveLogarithm, a ≤ 0), (.invalidLogarithmBase, 0 < a ∧ (b ≤ 0 ∨ b = 1))]
      fun outcome => ∃ z, outcome = .ok z :=
  ⟨raises_power left right, raises_sqrt left, raises_nthroot left right, raises_log left right⟩

/-- The reciprocal of the least negative real is infinite, but the errors of zero are those of a negative degree. -/
theorem errors_of_zero_least_degree :
    exactValue? 0 = some 0 ∧ exactValue? (Binary64.nearest .negative 1 (-1074)) = some (-2 ^ (-1074 : ℤ)) ∧
      power 0 (Binary64.nearest .negative 1 (-1074)) = .error .divisionByZero ∧ ResultOrOverflow (sqrt 0) ∧
      nthroot 0 (Binary64.nearest .negative 1 (-1074)) = .error .divisionByZero ∧
      log 0 (Binary64.nearest .negative 1 (-1074)) = .error .nonPositiveLogarithm := by
  have degree : exactValue? (Binary64.nearest .negative 1 (-1074)) = some (-2 ^ (-1074 : ℤ)) := by
    rw [Binary64.exactValue?_nearest_of_short .negative (by decide) (by decide) (by decide), Binary64.apply_negative,
      Nat.cast_one, neg_one_mul]
  have negative : -2 ^ (-1074 : ℤ) < (0 : ℚ) := neg_lt_zero.mpr (Binary64.unit_pos _)
  obtain ⟨powers, squareRoots, roots, logarithms⟩ := errors_exactly_on_domains Binary64.exactValue?_ofNat_zero degree
  refine ⟨Binary64.exactValue?_ofNat_zero, degree, ?_, ?_, ?_, ?_⟩
  · exact (powers.1 _ List.mem_cons_self).mpr ⟨rfl, negative⟩
  · apply squareRoots.2
    intro domain member
    cases List.mem_singleton.mp member
    exact lt_irrefl 0
  · exact (roots.1 _ List.mem_cons_self).mpr (.inr ⟨rfl, negative⟩)
  · exact (logarithms.1 _ List.mem_cons_self).mpr le_rfl

end Calculator.Elementary
