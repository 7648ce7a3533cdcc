import Calculator.Proofs.Session

namespace Calculator

/-- Digits of a base, without a zero before others. -/
structure IsNumeral (base : NumeralBase) (text : List Char) : Prop where
  nonempty : text ≠ []
  digits : ∀ c ∈ text, base.isDigit c = true
  leading : text.head? = some '0' → text = ['0']

/-- A numeral, or a minus sign and a numeral other than zero. -/
def IsWhole (base : NumeralBase) (text : List Char) : Prop :=
  IsNumeral base text ∨ ∃ magnitude, text = '-' :: magnitude ∧ IsNumeral base magnitude ∧ magnitude ≠ ['0']

def IsQuotient (base : NumeralBase) (text : List Char) : Prop :=
  ∃ quotient remainder, text = quotient ++ [' ', 'z', 'v', '.'] ++ remainder ∧ IsWhole base quotient ∧
    IsWhole base remainder

/-- The places behind a point: one at least and ten at most, none of them a zero at the end but the only
    one. -/
structure IsPlaces (text : List Char) : Prop where
  nonempty : text ≠ []
  short : text.length ≤ 10
  digits : ∀ c ∈ text, c.isDigit = true
  trailing : text.getLast? = some '0' → text = ['0']

/-- A decimal numeral with places, perhaps behind a minus sign, and not a zero with a sign. -/
def IsReal (text : List Char) : Prop :=
  ∃ sign whole places, text = sign ++ (whole ++ '.' :: places) ∧ (sign = [] ∨ sign = ['-']) ∧
    IsNumeral .decimal whole ∧ IsPlaces places ∧ text ≠ ['-', '0', '.', '0']

theorem eq_of_negativeZero {sign whole places : List Char} (isSign : sign = [] ∨ sign = ['-'])
    (numeral : IsNumeral .decimal whole) (zero : sign ++ (whole ++ '.' :: places) = ['-', '0', '.', '0']) :
    sign = ['-'] ∧ whole = ['0'] ∧ places = ['0'] := by
  obtain ⟨c, rest, rfl⟩ := List.exists_cons_of_ne_nil numeral.nonempty
  have digits := numeral.digits
  rcases isSign with rfl | rfl
  · obtain ⟨rfl, -⟩ := List.cons.inj zero
    exact absurd (digits '-' List.mem_cons_self) (by decide)
  · simp only [List.cons_append, List.nil_append, List.cons.injEq, true_and] at zero
    obtain ⟨rfl, zero⟩ := zero
    cases rest with
    | nil =>
      simp only [List.nil_append, List.cons.injEq, true_and] at zero
      exact ⟨rfl, rfl, zero⟩
    | cons d rest =>
      simp only [List.cons_append, List.cons.injEq] at zero
      obtain ⟨rfl, -⟩ := zero
      exact absurd (digits '.' (by simp)) (by decide)

theorem IsNumeral.no_blank {base : NumeralBase} {text : List Char} (numeral : IsNumeral base text) :
    ' ' ∉ text := by
  intro member
  have digit := numeral.digits ' ' member
  cases digit

theorem IsWhole.no_blank {base : NumeralBase} {text : List Char} (whole : IsWhole base text) :
    ' ' ∉ text := by
  rcases whole with numeral | ⟨magnitude, rfl, numeral, -⟩
  · exact numeral.no_blank
  · simpa using numeral.no_blank

theorem IsReal.no_blank {text : List Char} (real : IsReal text) : ' ' ∉ text := by
  obtain ⟨sign, whole, places, rfl, isSign, numeral, isPlaces, -⟩ := real
  have inPlaces : ' ' ∉ places := by
    intro member
    have digit := isPlaces.digits ' ' member
    cases digit
  rcases isSign with rfl | rfl <;> simp [numeral.no_blank, inPlaces]

theorem IsQuotient.blank {base : NumeralBase} {text : List Char} (quotient : IsQuotient base text) :
    ' ' ∈ text := by
  obtain ⟨quotient, remainder, rfl, -, -⟩ := quotient
  simp

namespace NumeralBase

variable {base : NumeralBase}

theorem isNumeral_digits (base : NumeralBase) (n : Nat) : IsNumeral base (base.digits n) where
  nonempty := base.digits_ne_nil n
  digits := List.all_eq_true.mp (base.all_isDigit_digits n)
  leading zero := by rw [eq_zero_of_head?_digits base zero, digits_zero]

theorem isWhole_showInt (base : NumeralBase) (n : Int) : IsWhole base (base.showInt n) := by
  by_cases negative : n < 0
  · rw [showInt_of_neg negative]
    refine .inr ⟨_, rfl, base.isNumeral_digits _, fun zero => ?_⟩
    have magnitude : n.natAbs = 0 := eq_zero_of_head?_digits base (by rw [zero]; rfl)
    omega
  · rw [showInt_of_nonneg (by omega)]
    exact .inl (base.isNumeral_digits _)

end NumeralBase

namespace Decimal

section Fractions

variable {places fraction : Nat}

theorem length_padded (positive : 0 < places) (small : fraction < Nat.pow 10 places) :
    (padded places fraction).length = places := by
  have short : (digits fraction).length ≤ places := Nat.toDigits_length 10 fraction places positive small
  rw [padded, List.length_append, List.length_replicate]
  omega

theorem isPlaces_shownFraction (positive : 0 < places) (few : places ≤ 10)
    (small : fraction < Nat.pow 10 places) : IsPlaces (shownFraction places fraction) := by
  unfold shownFraction
  split
  · exact ⟨nofun, Nat.le_add_left 1 9, List.forall_mem_singleton.mpr rfl, fun _ => rfl⟩
  · rename_i some
    have kept := dropTrailingZeros_isPrefix (padded places fraction)
    refine ⟨some, ?_, fun c member => isDigit_of_mem_padded c (kept.subset member), fun zero => ?_⟩
    · have shorter := kept.length_le
      rw [length_padded positive small] at shorter
      omega
    · exact absurd zero (getLast?_dropTrailingZeros _)

theorem eq_zero_of_shownFraction (zero : shownFraction places fraction = ['0']) : fraction = 0 := by
  unfold shownFraction at zero
  split at zero
  · exact eq_zero_of_dropTrailingZeros_padded ‹_›
  · exact absurd (by rw [zero]; rfl) (getLast?_dropTrailingZeros (padded places fraction))

end Fractions

theorem isReal_showUnits {places units : Nat} (positive : 0 < places) (few : places ≤ 10) {sign : List Char}
    (isSign : sign = [] ∨ sign = ['-']) :
    IsReal ((if units = 0 then [] else sign) ++ showUnits places units) := by
  have small : units % Nat.pow 10 places < Nat.pow 10 places := Nat.mod_lt _ (Nat.pow_pos (by decide))
  rw [showUnits]
  refine ⟨_, _, _, rfl, ?_, NumeralBase.decimal.isNumeral_digits _,
    isPlaces_shownFraction positive few small, fun negativeZero => ?_⟩
  · split
    · exact .inl rfl
    · exact isSign
  · -- only no units at all are shown as 0.0, and they are shown without a sign
    have numeral := NumeralBase.decimal.isNumeral_digits (units / Nat.pow 10 places)
    obtain ⟨signed, whole, fraction⟩ := eq_of_negativeZero (by split <;> simp [isSign]) numeral negativeZero
    have noFraction := eq_zero_of_shownFraction fraction
    have noWhole : units / Nat.pow 10 places = 0 :=
      NumeralBase.eq_zero_of_head?_digits .decimal (by rw [whole]; rfl)
    have noUnits : units = 0 := by
      rw [← Nat.div_add_mod units (Nat.pow 10 places), noWhole, noFraction, Nat.mul_zero]
    rw [if_pos noUnits] at signed
    cases signed

theorem isReal_showReal {x : Float} (finite : x.isFinite = true) : IsReal (showReal x) := by
  obtain ⟨sign, units, isSign, shown⟩ := showReal_of_isFinite finite
  rw [shown]
  exact isReal_showUnits (by decide) (by decide) isSign

end Decimal

namespace Answer

variable {base : NumeralBase}

theorem isWhole_or_isReal_render {v : Value} (finite : v.isFinite = true) :
    IsWhole base (v.render base).toList ∨ IsReal (v.render base).toList := by
  cases v with
  | integer n =>
    rw [Value.render, String.toList_ofList]
    exact .inl (base.isWhole_showInt n.toInt)
  | real x =>
    rw [Value.render, String.toList_ofList]
    exact .inr (Decimal.isReal_showReal finite)

theorem isQuotient_renderDivision (d : Whole.Division) :
    IsQuotient base (renderDivision base d).toList := by
  refine ⟨_, _, ?_, base.isWhole_showInt d.quotient.toInt, base.isWhole_showInt d.remainder.toInt⟩
  simp [renderDivision]

/-- The quotient is shown of a division at the root, in a base other than ten. -/
theorem ofExpr_form {e : Expr} {a : Answer} (answers : ofExpr base e = .ok a) :
    ((base ≠ .decimal ∧ ∃ left right p, e = .binary .div left right p) ∧ IsQuotient base a.text.toList) ∨
      (¬ (base ≠ .decimal ∧ ∃ left right p, e = .binary .div left right p) ∧
        (IsWhole base a.text.toList ∨ IsReal a.text.toList)) := by
  have value (shown : e.answer.map (ofValue base) = .ok a) :
      IsWhole base a.text.toList ∨ IsReal a.text.toList := by
    obtain ⟨v, evaluates, rfl⟩ := map_eq_ok_iff.mp shown
    exact isWhole_or_isReal_render (Expr.isNormal_answer evaluates).isFinite
  unfold ofExpr at answers
  split at answers
  · rename_i left right p
    split at answers
    · rename_i decimal
      exact .inr ⟨fun division => division.1 decimal, value answers⟩
    · rename_i other
      obtain ⟨d, -, rfl⟩ := map_eq_ok_iff.mp answers
      exact .inl ⟨⟨other, left, right, p, rfl⟩, isQuotient_renderDivision d⟩
  · rename_i other
    exact .inr ⟨fun ⟨_, left, right, p, root⟩ => other left right p root, value answers⟩

/-- An answer is a whole number in the base of the formula, a quotient with a remainder in it, or a real in
    decimal. So no answer reads like a failure. -/
theorem compute_form (base : NumeralBase) (last : Value) (formula : String) :
    (∀ a, compute base last formula = .ok a → ∃ e, Expr.ofFormula base last formula.toList = .ok e ∧
      (IsWhole base a.text.toList ∨ IsQuotient base a.text.toList ∨ IsReal a.text.toList) ∧
      (IsQuotient base a.text.toList ↔ base ≠ .decimal ∧ ∃ left right p, e = .binary .div left right p)) ∧
      (textOf (compute base last formula) = errorText ↔ ∃ f, compute base last formula = .error f) := by
  constructor
  · intro a computes
    obtain ⟨e, parsed, answers⟩ := compute_eq_ok_iff.mp computes
    refine ⟨e, parsed, ?_⟩
    rcases ofExpr_form answers with ⟨division, quotient⟩ | ⟨other, whole | real⟩
    · exact ⟨.inr (.inl quotient), iff_of_true quotient division⟩
    · exact ⟨.inl whole, iff_of_false (fun quotient => whole.no_blank quotient.blank) other⟩
    · exact ⟨.inr (.inr real), iff_of_false (fun quotient => real.no_blank quotient.blank) other⟩
  · cases computes : compute base last formula with
    | error f => exact iff_of_true rfl ⟨f, rfl⟩
    | ok a =>
      refine iff_of_false (fun same => ?_) nofun
      obtain ⟨sign, c, rest, letters, isSign, digit⟩ := (compute_shape computes).2
      have word : a.text.toList = ['E', 'r', 'r', 'o', 'r'] := congrArg String.toList same
      rw [word] at letters
      rcases isSign with rfl | rfl
      · obtain ⟨rfl, -⟩ := List.cons.inj letters
        cases digit
      · cases letters

/-- The octal formula -7/2, whose floor and remainder are shown. -/
theorem compute_form_division :
    let a : Answer := ⟨"-4 zv.1", .integer (-4)⟩
    let e : Expr := .binary .div (.negation (.number (.integer 7) 1) 0) (.number (.integer 2) 3) 2
    compute .octal (.integer 0) "-7/2" = .ok a ∧ Expr.ofFormula .octal (.integer 0) "-7/2".toList = .ok e ∧
      IsQuotient .octal a.text.toList := by
  intro a e
  have computes : compute .octal (.integer 0) "-7/2" = .ok a := by decide +kernel
  have parsed : Expr.ofFormula .octal (.integer 0) "-7/2".toList = .ok e := by decide +kernel
  obtain ⟨e', parsed', -, division⟩ := (compute_form .octal (.integer 0) "-7/2").1 a computes
  rw [parsed] at parsed'
  cases parsed'
  exact ⟨computes, parsed, division.mpr ⟨nofun, _, _, _, rfl⟩⟩

end Answer

end Calculator
