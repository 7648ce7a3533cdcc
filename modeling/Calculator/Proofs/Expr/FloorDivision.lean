import Calculator.Proofs.Binary64.Quotients
import Calculator.Proofs.Expr.Exact
import Calculator.Proofs.FloorDivision
import Calculator.Proofs.Value

namespace Calculator

section Operands

variable {v w : Value} {a b : Int64}

theorem Value.eq_of_exactValue? {i : Int64} (known : (Value.integer i).exactValue? = some (a.toInt : ℚ)) : i = a :=
  Int64.toInt_inj.mp (Int.cast_inj.mp (Option.some.inj known))

theorem Operator.onWhole?_div {n : Int64} (whole : Operator.div.onWhole? a b = some n) :
    (a.toInt / b.toInt : ℚ) = n.toInt := by
  have exact := (onWhole?_eq_some_iff.mp whole).1
  simp only [exactValue?, Option.ite_none_right_eq_some, Option.some_inj] at exact
  obtain ⟨⟨nonzero, divides⟩, quotient⟩ := exact
  have divisor : (b.toInt : ℚ) ≠ 0 := by exact_mod_cast nonzero
  rw [← quotient, Int.cast_div divides divisor]

variable (left : v.exactValue? = some (a.toInt : ℚ)) (right : w.exactValue? = some (b.toInt : ℚ))
  (nonzero : b.toInt ≠ 0)
include left right nonzero

theorem Operator.onReals_div : ∃ z q, Operator.div.onReals v.toReal w.toReal = .ok z ∧
    Binary64.exactValue? z = some q ∧
      (|a.toInt| ≤ 2 ^ 53 → |b.toInt| ≤ 2 ^ 53 → q = Binary64.rounded (a.toInt / b.toInt)) := by
  have dividend := Value.exactValue?_toReal_rounded left
  have divisor := Value.exactValue?_toReal_rounded right
  have large : 1 ≤ |Binary64.rounded b.toInt| := by
    have counted : (2 : ℚ) ^ (0 : ℤ) ≤ |(b.toInt : ℚ)| := by exact_mod_cast Int.one_le_abs nonzero
    exact_mod_cast Binary64.le_abs_rounded (by decide) counted
  have small := Binary64.abs_rounded_le (by decide) (Value.abs_toInt_le a)
  have nonzeroReal : Binary64.rounded b.toInt ≠ 0 := by
    intro zero
    rw [zero, abs_zero] at large
    exact absurd large (by norm_num)
  have notZero : ¬ (w.toReal == 0) = true := fun zero => nonzeroReal ((Binary64.beq_zero_iff divisor).mp zero)
  have quotient : |Binary64.rounded a.toInt / Binary64.rounded b.toInt| ≤ 2 ^ (63 : ℤ) := by
    rw [abs_div]
    exact (div_le_self (abs_nonneg _) large).trans small
  refine ⟨v.toReal / w.toReal, Binary64.rounded (Binary64.rounded a.toInt / Binary64.rounded b.toInt),
    if_neg notZero, ?_, ?_⟩
  · rw [Binary64.exactValue?_div dividend divisor nonzeroReal,
      Binary64.nearestReal?_of_abs_le quotient (by decide) (by decide)]
  · intro short short'
    rw [Binary64.rounded_intCast short, Binary64.rounded_intCast short']

theorem Operator.apply_div : ∃ u q, Operator.div.apply v w = .ok u ∧ u.exactValue? = some q ∧
    (|a.toInt| ≤ 2 ^ 53 → |b.toInt| ≤ 2 ^ 53 → q = Binary64.rounded (a.toInt / b.toInt)) := by
  cases whole : Operator.div.wholeResult? v w with
  | some n =>
    obtain ⟨i, j, rfl, rfl, onWhole⟩ := wholeResult?_eq_some_iff.mp whole
    obtain rfl := Value.eq_of_exactValue? left
    obtain rfl := Value.eq_of_exactValue? right
    refine ⟨.integer n, n.toInt, apply_eq_integer_iff.mpr whole, rfl, fun short short' => ?_⟩
    exact ((Binary64.rounded_div_eq_iff short short' nonzero).mpr (onWhole?_div onWhole)).symm
  | none =>
    obtain ⟨z, q, divided, value, short⟩ := onReals_div left right nonzero
    refine ⟨.real z, q, ?_, value, short⟩
    rw [apply, whole, divided]
    rfl

end Operands

namespace Expr

theorem toWhole_answer {e : Expr} {v : Value} {n : Int64} {p : Nat} (answers : e.answer = .ok v)
    (whole : v.toWhole p = .ok n) :
    v = .integer n ∧ ∃ w, e.eval = .ok w ∧ w.exactValue? = some (n.toInt : ℚ) := by
  obtain ⟨w, value, _, rfl⟩ := answer_eq_ok_iff.mp answers
  have known : w.normalized.toWhole? = some n := by
    unfold Value.toWhole at whole
    split at whole
    · rename_i known
      rw [known, Except.ok.inj whole]
    · cases whole
  rw [Value.toWhole?_eq_some_iff, Value.exactValue?_normalized] at known
  exact ⟨Value.normalized_eq_integer_iff.mpr known, w, value, known⟩

/-- Where the division with remainder of two formulas succeeds, it divides the whole numbers that are their answers,
and the formula of their quotient has an answer too. If the whole numbers are not past 2 ^ 53, the quotient with
remainder is the floor of that answer, and is the answer if there is no remainder. -/
theorem answer_div_of_floorDiv {l r : Expr} {p : Nat} {d : Whole.Division} (divides : l.floorDiv r p = .ok d) :
    ∃ a b : Int64, l.answer = .ok (.integer a) ∧ r.answer = .ok (.integer b) ∧
      Whole.IsFloorDivision a.toInt b.toInt d.quotient.toInt d.remainder.toInt ∧
      ∃ v, (binary .div l r p).answer = .ok v ∧
        (|a.toInt| ≤ 2 ^ 53 → |b.toInt| ≤ 2 ^ 53 →
          (∃ x, v.exactValue? = some x ∧ ⌊x⌋ = d.quotient.toInt) ∧
            (v = .integer d.quotient ↔ d.remainder.toInt = 0)) := by
  simp only [floorDiv, bind_eq_ok_iff, mapError_eq_ok_iff] at divides
  obtain ⟨v, first, a, wholeFirst, w, second, b, wholeSecond, division⟩ := divides
  obtain ⟨rfl, v', evalFirst, left⟩ := toWhole_answer first wholeFirst
  obtain ⟨rfl, w', evalSecond, right⟩ := toWhole_answer second wholeSecond
  have floor := Whole.isFloorDivision_of_floorDiv division
  obtain ⟨u, q, applied, value, rounds⟩ := Operator.apply_div left right floor.nonzero
  have finite := Value.isFinite_of_exactValue? value
  have evaluates := eval_binary_eq_ok_iff (p := p).mpr ⟨v', w', evalFirst, evalSecond, applied, finite⟩
  refine ⟨a, b, first, second, floor, u.normalized, answer_eq_ok_iff.mpr ⟨u, evaluates, finite, rfl⟩, ?_⟩
  intro short short'
  rw [rounds short short'] at value
  constructor
  · refine ⟨_, (Value.exactValue?_normalized u).trans value, ?_⟩
    rw [Binary64.floor_rounded_div short short' floor.nonzero, floor.floor]
  · rw [Value.normalized_eq_integer_iff, value, Option.some_inj,
      Binary64.rounded_div_eq_iff short short' floor.nonzero, floor.quotient_eq_iff]

def minusSeven : Expr :=
  .binary .mul (.negation (.binary .div (.number (.integer 7) 2) (.number (.integer 2) 6) 4) 0)
    (.number (.integer 2) 11) 9

theorem answer_minusSeven_div : minusSeven.floorDiv (.number (.integer 2) 15) 13 = .ok ⟨-4, 1⟩ ∧
    ∃ v, (binary .div minusSeven (.number (.integer 2) 15) 13).answer = .ok v ∧
      ∃ x, v.exactValue? = some x ∧ ⌊x⌋ = -4 := by
  have divides : minusSeven.floorDiv (.number (.integer 2) 15) 13 = .ok ⟨-4, 1⟩ := by decide +kernel
  obtain ⟨a, b, first, second, floor, v, answers, agrees⟩ := answer_div_of_floorDiv divides
  have dividend : minusSeven.answer = .ok (.integer (-7)) := by decide +kernel
  have divisor : (number (.integer 2) 15).answer = .ok (.integer 2) := rfl
  cases dividend.symm.trans first
  cases divisor.symm.trans second
  exact ⟨divides, v, answers, (agrees (by decide) (by decide)).1⟩

end Expr

end Calculator
