import Calculator.Proofs.Binary64.WholeNumbers
import Calculator.Proofs.Expr.Evaluation
import Calculator.Proofs.Value

namespace Calculator.Expr

open Binary64 (rounded IsShortWhole)

variable {e : Expr} {name : String} {v : Value} {n : Int64} {a : ℚ} {p : ℕ}

theorem find?_abs (named : Text.foldName name = "abs") :
    Function.find? name = some (.unary fun x => .ok (Binary64.abs x)) := by
  rw [Function.find?, named]
  rfl

theorem answer_abs (named : Text.foldName name = "abs") (evaluates : e.eval = .ok v)
    (known : v.exactValue? = some a) :
    ∃ z, Binary64.exactValue? z = some (rounded |a|) ∧
      (Expr.call1 name e p).answer = .ok (Value.real z).normalized := by
  have value := Binary64.exactValue?_abs (Value.exactValue?_toReal_rounded known)
  rw [Binary64.abs_rounded] at value
  have finite : (Value.real (Binary64.abs v.toReal)).isFinite = true := Value.isFinite_of_exactValue? value
  refine ⟨_, value, ?_⟩
  rw [answer_eq_ok_iff]
  refine ⟨_, ?_, finite, rfl⟩
  rw [eval, evaluates]
  change Function.call name p [v] = _
  unfold Function.call
  rw [find?_abs named]
  exact if_pos finite

theorem abs_toInt_lt (notLeast : n ≠ Int64.minValue) : |n.toInt| < 2 ^ 63 := by
  have lower := Int64.le_toInt n
  have upper := Int64.toInt_lt n
  have least : n.toInt ≠ -9223372036854775808 := fun same => notLeast (Int64.toInt_inj.mp same)
  rw [abs_lt]
  omega

section Rounded

variable {z : Float} {m : ℤ} (value : Binary64.exactValue? z = some (rounded m))

theorem exists_toInt_eq (nonnegative : 0 ≤ m) (small : m < 2 ^ 63) : ∃ w : Int64, w.toInt = m := by
  apply Whole.exists_toInt_eq
  unfold Whole.InRange Whole.least Whole.greatest
  omega

include value

theorem normalized_rounded_eq_integer_iff (w : Int64) :
    (Value.real z).normalized = .integer w ↔ rounded m = w.toInt := by
  rw [Value.normalized_eq_integer_iff, Value.exactValue?, value, Option.some_inj]

theorem normalized_rounded_of_great (great : 2 ^ 63 - 512 ≤ m) (small : m < 2 ^ 63) :
    (Value.real z).normalized = .real z := by
  unfold Value.normalized
  cases whole : (Value.real z).toWhole? with
  | none => rfl
  | some w =>
    have known : Binary64.exactValue? z = some (w.toInt : ℚ) := Value.toWhole?_eq_some_iff.mp whole
    rw [value, Binary64.rounded_eq_two_pow great small.le, Option.some_inj] at known
    have power : 2 ^ 63 = w.toInt := by exact_mod_cast known
    have upper := Int64.toInt_lt w
    omega

end Rounded

/-- The absolute value of a whole number is exact if that number is short, and otherwise it is that of the nearest real.
The greatest numbers of 64 bits become a real, as they are rounded to 2 ^ 63. -/
theorem answer_abs_integer (named : Text.foldName name = "abs") (evaluates : e.eval = .ok (.integer n))
    (notLeast : n ≠ Int64.minValue) :
    ((∃ w : Int64, w.toInt = |n.toInt| ∧ (Expr.call1 name e p).answer = .ok (.integer w)) ↔
        IsShortWhole |n.toInt|) ∧
      (|n.toInt| < 2 ^ 63 - 512 →
        ∃ w : Int64, w.toInt = rounded |n.toInt| ∧ (Expr.call1 name e p).answer = .ok (.integer w)) ∧
      (2 ^ 63 - 512 ≤ |n.toInt| →
        ∃ x, Binary64.exactValue? x = some (2 ^ 63) ∧ (Expr.call1 name e p).answer = .ok (.real x)) := by
  obtain ⟨z, value, answers⟩ := answer_abs (p := p) named evaluates rfl
  have small := abs_toInt_lt notLeast
  have nonnegative := abs_nonneg n.toInt
  rw [← Int.cast_abs] at value ⊢
  generalize |n.toInt| = m at value small nonnegative
  have whole := normalized_rounded_eq_integer_iff value
  rw [answers]
  refine ⟨?_, ?_, ?_⟩
  · rw [← Binary64.rounded_intCast_eq_iff ((abs_of_nonneg nonnegative).trans_le small.le)]
    constructor
    · rintro ⟨w, rfl, answer⟩
      exact (whole w).mp (Except.ok.inj answer)
    · intro same
      obtain ⟨w, rfl⟩ := exists_toInt_eq nonnegative small
      exact ⟨w, rfl, congrArg Except.ok ((whole w).mpr same)⟩
  · intro inRange
    obtain ⟨w, same⟩ := Binary64.exists_toInt_eq_rounded (by omega) inRange
    exact ⟨w, same, congrArg Except.ok ((whole w).mpr same.symm)⟩
  · intro great
    have unchanged := normalized_rounded_of_great value great small
    rw [Binary64.rounded_eq_two_pow great small.le] at value
    exact ⟨z, value, congrArg Except.ok unchanged⟩

theorem answer_abs_greatest :
    Text.foldName "Abs" = "abs" ∧ Int64.maxValue ≠ Int64.minValue ∧ 2 ^ 63 - 512 ≤ |Int64.maxValue.toInt| ∧
      ∃ x, Binary64.exactValue? x = some (2 ^ 63) ∧
        (Expr.call1 "Abs" (.number (.integer Int64.maxValue) 4) 0).answer = .ok (.real x) := by
  have named : Text.foldName "Abs" = "abs" := by decide
  have notLeast : Int64.maxValue ≠ Int64.minValue := by decide
  have great : 2 ^ 63 - 512 ≤ |Int64.maxValue.toInt| := by decide
  exact ⟨named, notLeast, great, (answer_abs_integer named eval_number notLeast).2.2 great⟩

/-- The least positive number that is not short. -/
theorem answer_abs_not_exact :
    (Expr.call1 "abs" (.number (.integer 9007199254740993) 4) 0).answer = .ok (.integer 9007199254740992) ∧
      Int64.toInt 9007199254740992 ≠ |Int64.toInt 9007199254740993| :=
  ⟨rfl, by decide⟩

end Calculator.Expr
