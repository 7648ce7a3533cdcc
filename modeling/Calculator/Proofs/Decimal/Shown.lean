import Calculator.Decimal.Text
import Calculator.Proofs.Binary64.Magnitude
import Calculator.Proofs.Numeral

namespace Calculator

open Float.Model.UnpackedFloat (Sign)

def BeginsNumber (text : List Char) : Prop :=
  ∃ sign c rest, text = sign ++ c :: rest ∧ (sign = [] ∨ sign = ['-']) ∧ c.isDigit = true

theorem beginsNumber_digits (sign : List Char) (base : NumeralBase) (n : Nat) (rest : List Char)
    (isSign : sign = [] ∨ sign = ['-']) : BeginsNumber (sign ++ (base.digits n ++ rest)) := by
  obtain ⟨c, text, shown⟩ := List.exists_cons_of_ne_nil (base.digits_ne_nil n)
  have digit : c.isDigit = true := NumeralBase.isDigit_of_mem_digits (by rw [shown]; simp)
  exact ⟨sign, c, text ++ rest, by rw [shown, List.cons_append], isSign, digit⟩

theorem BeginsNumber.append {text : List Char} (begins : BeginsNumber text) (rest : List Char) :
    BeginsNumber (text ++ rest) := by
  obtain ⟨sign, c, tail, rfl, isSign, digit⟩ := begins
  exact ⟨sign, c, tail ++ rest, by simp, isSign, digit⟩

theorem BeginsNumber.is_number {text : String} (begins : BeginsNumber text.toList) :
    text ∉ ["inf.0", "-inf.0", "NaN.0"] := by
  obtain ⟨sign, c, rest, letters, isSign, digit⟩ := begins
  have notLetter : c ≠ 'i' ∧ c ≠ 'N' ∧ c ≠ '-' := by
    refine ⟨?_, ?_, ?_⟩ <;> rintro rfl <;> cases digit
  intro member
  simp only [List.mem_cons, List.not_mem_nil, or_false] at member
  rcases member with rfl | rfl | rfl
  all_goals
    rcases isSign with rfl | rfl <;> simp [eq_comm, notLetter] at letters

theorem NumeralBase.beginsNumber_showInt (base : NumeralBase) (n : Int) : BeginsNumber (base.showInt n) := by
  rw [← List.append_nil (base.showInt n), showInt]
  split
  · exact beginsNumber_digits ['-'] base n.natAbs [] (.inr rfl)
  · exact beginsNumber_digits [] base n.natAbs [] (.inl rfl)

namespace Decimal

theorem signText_cases (sign : Sign) : signText sign = [] ∨ signText sign = ['-'] := by
  cases sign with
  | negative => exact .inr rfl
  | positive => exact .inl rfl

section Trimming

variable {c d : Char} {front text : List Char}

theorem trimEnd_append_self (c : Char) (front : List Char) : trimEnd c (front ++ [c]) = trimEnd c front := by
  simp [trimEnd]

theorem trimEnd_append_cons (other : d ≠ c) (front text : List Char) :
    trimEnd c (front ++ d :: text) = front ++ d :: trimEnd c text := by
  unfold trimEnd
  rw [List.reverse_append, List.reverse_cons, List.append_assoc, List.dropWhile_append]
  by_cases none : text.reverse.dropWhile (· = c) = []
  · simp [none, other]
  · simp [none]

theorem trimEnd_append_of_not_mem (nonempty : text ≠ []) (others : c ∉ text) (front : List Char) :
    trimEnd c (front ++ text) = front ++ text := by
  obtain ⟨before, d, rfl⟩ := text.eq_nil_or_concat'.resolve_left nonempty
  have other : d ≠ c := by
    rintro rfl
    exact others (List.mem_append_right _ (List.mem_singleton_self d))
  rw [← List.append_assoc]
  exact trimEnd_append_cons other (front ++ before) []

theorem dropTrailingZeros_isPrefix (text : List Char) : dropTrailingZeros text <+: text := by
  have suffix := List.dropWhile_suffix (l := text.reverse) (· = '0')
  rw [← List.reverse_prefix, List.reverse_reverse] at suffix
  exact suffix

theorem getLast?_dropTrailingZeros (text : List Char) : (dropTrailingZeros text).getLast? ≠ some '0' := by
  rw [dropTrailingZeros, trimEnd, List.getLast?_reverse]
  intro zero
  have first := List.head?_dropWhile_not (· = '0') text.reverse
  rw [zero] at first
  cases first

theorem eq_zero_of_dropTrailingZeros_eq_nil {text : List Char} (none : dropTrailingZeros text = []) :
    ∀ c ∈ text, c = '0' := by
  intro c member
  have all := List.dropWhile_eq_nil_iff.mp (List.reverse_eq_nil_iff.mp none)
  exact of_decide_eq_true (all c (List.mem_reverse.mpr member))

theorem dropTrailingZeros_append_point (front places : List Char) :
    dropTrailingZeros (front ++ '.' :: places) = front ++ '.' :: dropTrailingZeros places :=
  trimEnd_append_cons (by decide) front places

theorem shorten_of_no_places {places : List Char} (none : dropTrailingZeros places = []) (nonempty : front ≠ [])
    (noPoint : '.' ∉ front) :
    shorten (front ++ '.' :: places) = (if front = ['-', '0'] then ['0'] else front) ++ ['.', '0'] := by
  have trimmed : trimEnd '.' (dropTrailingZeros (front ++ '.' :: places)) = front := by
    rw [dropTrailingZeros_append_point, none, trimEnd_append_self]
    exact trimEnd_append_of_not_mem nonempty noPoint []
  have plain : front.contains '.' = false := by simpa using noPoint
  rw [shorten, trimmed, plain]
  split <;> rfl

theorem shorten_of_places {places : List Char} (some : dropTrailingZeros places ≠ []) (noPoint : '.' ∉ places)
    (front : List Char) :
    shorten (front ++ '.' :: places) = front ++ '.' :: dropTrailingZeros places := by
  have noPoint' : '.' ∉ dropTrailingZeros places := fun member =>
    noPoint ((dropTrailingZeros_isPrefix places).subset member)
  have trimmed :
      trimEnd '.' (dropTrailingZeros (front ++ '.' :: places)) = front ++ '.' :: dropTrailingZeros places := by
    rw [dropTrailingZeros_append_point, ← List.singleton_append, ← List.append_assoc]
    exact trimEnd_append_of_not_mem some noPoint' (front ++ ['.'])
  have point : (front ++ '.' :: dropTrailingZeros places).contains '.' = true := by simp
  have signed : front ++ '.' :: dropTrailingZeros places ≠ ['-', '0'] := fun same => by simp [same] at point
  rw [shorten, trimmed, if_neg signed, if_pos point]

end Trimming

section Units

variable {places fraction units : Nat}

def shownFraction (places fraction : Nat) : List Char :=
  if dropTrailingZeros (padded places fraction) = [] then ['0']
  else dropTrailingZeros (padded places fraction)

/-- A number of units of the last decimal place, with at least one place and no other trailing zero. -/
def showUnits (places units : Nat) : List Char :=
  digits (units / Nat.pow 10 places) ++ '.' :: shownFraction places (units % Nat.pow 10 places)

theorem isDigit_of_mem_padded : ∀ c ∈ padded places fraction, c.isDigit = true := by
  intro c member
  rcases List.mem_append.mp member with zero | digit
  · rw [(List.mem_replicate.mp zero).2]
    rfl
  · exact NumeralBase.isDigit_of_mem_digits digit

theorem eq_zero_of_dropTrailingZeros_padded (none : dropTrailingZeros (padded places fraction) = []) :
    fraction = 0 := by
  obtain ⟨c, rest, shown⟩ := List.exists_cons_of_ne_nil (NumeralBase.decimal.digits_ne_nil fraction)
  have first : c = '0' := by
    refine eq_zero_of_dropTrailingZeros_eq_nil none c (List.mem_append_right _ ?_)
    rw [digits, shown]
    exact List.mem_cons_self
  exact NumeralBase.eq_zero_of_head?_digits .decimal (by rw [shown, first]; rfl)

theorem dropTrailingZeros_padded_zero (places : Nat) : dropTrailingZeros (padded places 0) = [] := by
  have zeros : padded places 0 = List.replicate (places - 1 + 1) '0' := by
    rw [List.replicate_succ']
    rfl
  rw [zeros, dropTrailingZeros, trimEnd, List.reverse_replicate]
  simp

theorem eq_zero_of_negativeZero {sign : List Char} (isSign : sign = [] ∨ sign = ['-'])
    (none : dropTrailingZeros (padded places (units % Nat.pow 10 places)) = [])
    (negativeZero : sign ++ digits (units / Nat.pow 10 places) = ['-', '0']) : units = 0 := by
  have fraction := eq_zero_of_dropTrailingZeros_padded none
  have whole : units / Nat.pow 10 places = 0 := by
    rcases isSign with rfl | rfl
    · have digit : ('-').isDigit = true :=
        NumeralBase.isDigit_of_mem_digits (negativeZero ▸ List.mem_cons_self : '-' ∈ digits _)
      cases digit
    · have zero : digits (units / Nat.pow 10 places) = ['0'] := (List.cons.inj negativeZero).2
      exact NumeralBase.eq_zero_of_head?_digits .decimal (congrArg List.head? zero)
  rw [← Nat.div_add_mod units (Nat.pow 10 places), whole, fraction, Nat.mul_zero]

theorem shorten_fixedUnits {sign : List Char} (isSign : sign = [] ∨ sign = ['-']) (places units : Nat) :
    shorten (sign ++ fixedUnits places units) = (if units = 0 then [] else sign) ++ showUnits places units := by
  have nonempty : sign ++ digits (units / Nat.pow 10 places) ≠ [] :=
    List.append_ne_nil_of_right_ne_nil _ (NumeralBase.decimal.digits_ne_nil _)
  have noPoint : '.' ∉ sign ++ digits (units / Nat.pow 10 places) := by
    intro member
    rcases List.mem_append.mp member with member | member
    · rcases isSign with rfl | rfl <;> simp at member
    · exact absurd (NumeralBase.isDigit_of_mem_digits member) (by decide)
  have noPoint' : '.' ∉ padded places (units % Nat.pow 10 places) := fun member =>
    absurd (isDigit_of_mem_padded _ member) (by decide)
  rw [fixedUnits, showUnits, shownFraction, ← List.append_assoc, ← List.append_assoc]
  by_cases none : dropTrailingZeros (padded places (units % Nat.pow 10 places)) = []
  · rw [if_pos none, shorten_of_no_places none nonempty noPoint]
    by_cases zero : units = 0
    · rw [zero, Nat.zero_div]
      rcases isSign with rfl | rfl <;> rfl
    · rw [if_neg zero, if_neg (mt (eq_zero_of_negativeZero isSign none) zero)]
  · have some : units ≠ 0 := by
      rintro rfl
      rw [Nat.zero_mod] at none
      exact none (dropTrailingZeros_padded_zero places)
    rw [if_neg none, if_neg some, shorten_of_places none noPoint']

end Units

/-- A real is rounded and shown as units of the last shown place, and no units at all without a sign. -/
theorem showReal_eq_units (x : Float) : showReal x =
    match (Binary64.roundShown x).toModel.unpack with
    | .notANumber => ['N', 'a', 'N', '.', '0']
    | .infinity sign => signText sign ++ ['i', 'n', 'f', '.', '0']
    | .zero _ => ['0', '.', '0']
    | .finite sign mantissa exponent _ =>
      let units := unitsOfPlaces Binary64.shownPlaces mantissa exponent
      (if units = 0 then [] else signText sign) ++ showUnits Binary64.shownPlaces units := by
  rw [showReal, fixed]
  cases (Binary64.roundShown x).toModel.unpack with
  | notANumber => decide
  | infinity sign => cases sign <;> decide
  | zero sign => exact shorten_fixedUnits (signText_cases sign) _ 0
  | finite sign mantissa exponent positive => exact shorten_fixedUnits (signText_cases sign) _ _

theorem showReal_of_isFinite {x : Float} (finite : x.isFinite = true) :
    ∃ sign units, (sign = [] ∨ sign = ['-']) ∧
      showReal x = (if units = 0 then [] else sign) ++ showUnits Binary64.shownPlaces units := by
  have rounded : (Binary64.roundShown x).toModel.unpack.isFinite = true := Binary64.isFinite_roundShown finite
  rw [showReal_eq_units]
  split
  · rename_i unpacked
    rw [unpacked] at rounded
    cases rounded
  · rename_i unpacked
    rw [unpacked] at rounded
    cases rounded
  · have zero : ['0', '.', '0'] = showUnits Binary64.shownPlaces 0 := by decide
    exact ⟨[], 0, .inl rfl, zero⟩
  · rename_i sign mantissa exponent _ _
    exact ⟨signText sign, unitsOfPlaces Binary64.shownPlaces mantissa exponent, signText_cases sign, rfl⟩

theorem beginsNumber_showReal {x : Float} (finite : x.isFinite = true) : BeginsNumber (showReal x) := by
  obtain ⟨sign, units, isSign, shown⟩ := showReal_of_isFinite finite
  rw [shown]
  rw [showUnits]
  apply beginsNumber_digits
  split
  · exact .inl rfl
  · exact isSign

end Decimal

end Calculator
