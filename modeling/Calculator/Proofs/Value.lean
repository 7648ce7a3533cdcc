import Calculator.Proofs.Binary64.Values
import Calculator.Proofs.Whole
import Calculator.Value

namespace Calculator.Value

variable {v w : Value} {a : ℚ} {n : Int64}

def exactValue? : Value → Option ℚ
  | .integer n => some n.toInt
  | .real x => Binary64.exactValue? x

/-- A whole number that is a real without being rounded, or a real. -/
def IsShort : Value → Prop
  | .integer n => |n.toInt| ≤ 2 ^ 53
  | .real _ => True

instance : DecidablePred IsShort
  | .integer n => inferInstanceAs (Decidable (|n.toInt| ≤ 2 ^ 53))
  | .real _ => inferInstanceAs (Decidable True)

theorem toReal_real (x : Float) : (real x).toReal = x := rfl

theorem isFinite_of_exactValue? (known : v.exactValue? = some a) : v.isFinite = true := by
  cases v with
  | integer n => rfl
  | real x => exact Binary64.isFinite_iff_exactValue?.mpr ⟨a, known⟩

theorem exactValue?_toReal (short : v.IsShort) : Binary64.exactValue? v.toReal = v.exactValue? := by
  cases v with
  | integer n => exact Binary64.toInt?_eq_some_iff.mp (Binary64.toInt?_ofInt64 short)
  | real x => rfl

theorem abs_toInt_le (n : Int64) : |(n.toInt : ℚ)| ≤ 2 ^ (63 : ℤ) := by
  have range := Whole.inRange_toInt n
  unfold Whole.InRange Whole.least Whole.greatest at range
  have bound : |n.toInt| ≤ 2 ^ 63 := abs_le.mpr ⟨by omega, by omega⟩
  exact_mod_cast bound

theorem exactValue?_toReal_rounded (known : v.exactValue? = some a) :
    Binary64.exactValue? v.toReal = some (Binary64.rounded a) := by
  cases v with
  | integer n =>
    cases Option.some.inj known
    have nearest := Binary64.nearestReal?_of_abs_le (abs_toInt_le n) (by decide) (by decide)
    exact (Binary64.exactValue?_ofInt n.toInt).trans nearest
  | real x =>
    have itself := Binary64.nearestReal?_of_exactValue? known
    unfold Binary64.nearestReal? at itself
    split at itself
    · rw [itself]
      exact known
    · cases itself

theorem toWhole?_eq_some_iff : v.toWhole? = some n ↔ v.exactValue? = some (n.toInt : ℚ) := by
  cases v with
  | integer m =>
    rw [toWhole?, exactValue?, Option.some_inj, Option.some_inj, Int.cast_inj, Int64.toInt_inj]
  | real x =>
    rw [toWhole?, wholeOfReal?, exactValue?, ← Binary64.toInt?_eq_some_iff, Option.bind_eq_some_iff]
    simp only [Whole.ofInt?_eq_some_iff]
    constructor
    · rintro ⟨i, whole, rfl⟩
      exact whole
    · intro whole
      exact ⟨n.toInt, whole, rfl⟩

theorem normalized_eq_integer_iff : v.normalized = .integer n ↔ v.exactValue? = some (n.toInt : ℚ) := by
  rw [← toWhole?_eq_some_iff]
  unfold normalized
  cases whole : v.toWhole? with
  | some m => simp
  | none =>
    cases v with
    | integer m => cases whole
    | real x => simp

theorem exactValue?_normalized (v : Value) : v.normalized.exactValue? = v.exactValue? := by
  cases whole : v.toWhole? with
  | some n =>
    have value := toWhole?_eq_some_iff.mp whole
    rw [normalized_eq_integer_iff.mpr value, value]
    rfl
  | none => rw [normalized, whole]

theorem normalized_congr (first : v.exactValue? = some a) (second : w.exactValue? = some a) :
    v.normalized = w.normalized := by
  cases whole : v.toWhole? with
  | some n =>
    have value := toWhole?_eq_some_iff.mp whole
    have other : w.exactValue? = some (n.toInt : ℚ) := second.trans (first.symm.trans value)
    rw [normalized_eq_integer_iff.mpr value, normalized_eq_integer_iff.mpr other]
  | none =>
    have notWhole (n : Int64) : a ≠ n.toInt := by
      rintro rfl
      rw [toWhole?_eq_some_iff.mpr first] at whole
      cases whole
    cases v with
    | integer n => exact absurd (Option.some.inj first).symm (notWhole n)
    | real x =>
      cases w with
      | integer n => exact absurd (Option.some.inj second).symm (notWhole n)
      | real y =>
        rcases Binary64.eq_or_zero_of_exactValue? first second with rfl | rfl
        · rfl
        · exact absurd rfl (notWhole 0)

theorem exactValue?_negate (known : v.exactValue? = some a) : v.negate.exactValue? = some (-a) := by
  cases v with
  | real x => exact Binary64.exactValue?_neg known
  | integer n =>
    cases Option.some.inj known
    cases negated : Whole.neg? n with
    | some m =>
      have opposite := Whole.neg?_eq_some_iff.mp negated
      simp only [negate, negated, exactValue?, opposite, Int.cast_neg]
    | none =>
      have least := Whole.neg?_eq_none negated
      have power : Binary64.toInt? (-Binary64.ofInt64 Int64.minValue) = some (-Int64.minValue.toInt) := by
        decide +kernel
      simp only [negate, negated, exactValue?]
      rw [least, Binary64.toInt?_eq_some_iff.mp power, Int.cast_neg]

end Calculator.Value
