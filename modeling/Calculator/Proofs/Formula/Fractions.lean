import Calculator.Decimal.Text
import Calculator.Proofs.Decimal.Literal
import Calculator.Proofs.Formula.Literals
import Mathlib.Tactic.FieldSimp

namespace Calculator

open Token (IsRun)

def Decimal.exactValue (d : Decimal) : ℚ := d.significand * 10 ^ d.exponent

def Decimal.digitCount (n : ℕ) : ℕ := (NumeralBase.decimal.digits n).length

namespace Formula

/-- The number that a formula is prepared as, where that is a decimal literal. -/
def numberOf? (base : NumeralBase) (formula : List Char) : Option ℚ :=
  match prepare base formula with
  | .ok text => (Decimal.readDecimal? text).map Decimal.exactValue
  | .error _ => none

variable {base : NumeralBase} {before : Option Char} {c : Char} {i f g run whole places rest : List Char} {m n k : ℕ}

section Preparing

theorem isWord_of_point (point : c = ',' ∨ c = '.') : Text.isWord c = false := by
  rcases point with rfl | rfl <;> decide

theorem pointFrom_run (isRun : IsRun Char.isDigit run) (before : Option Char) (rest : List Char) :
    pointFrom before (run ++ rest) = run ++ pointFrom run.getLast? rest := by
  obtain ⟨nonempty, inside⟩ := isRun
  induction run generalizing before with
  | nil => exact absurd rfl nonempty
  | cons d run ih =>
    obtain ⟨digit, others⟩ := List.forall_mem_cons.mp inside
    have notComma : d ≠ ',' := by
      rintro rfl
      cases digit
    rw [List.cons_append, pointFrom, if_neg fun comma => notComma comma.1, List.cons_append]
    cases run with
    | nil => rfl
    | cons d' run => rw [ih (some d) (List.cons_ne_nil _ _) others, List.getLast?_cons_cons]

theorem pointFrom_fraction (isWhole : IsRun Char.isDigit whole) (arePlaces : IsRun Char.isDigit places)
    (point : c = ',' ∨ c = '.') : pointFrom none (whole ++ c :: places) = whole ++ '.' :: places := by
  have behind : places.head?.any Char.isDigit = true := by
    obtain ⟨d, tail, rfl⟩ := List.exists_cons_of_ne_nil arePlaces.1
    exact arePlaces.2 d List.mem_cons_self
  have before : whole.getLast?.any Char.isDigit = true := by
    rw [List.getLast?_eq_some_getLast isWhole.1]
    exact isWhole.2 _ (List.getLast_mem isWhole.1)
  have noComma : ',' ∉ places := not_mem_of_isRun arePlaces (by decide)
  rw [pointFrom_run isWhole, pointFrom, pointFrom_of_no_comma noComma]
  rcases point with rfl | rfl
  · rw [if_pos ⟨rfl, before, behind⟩]
  · rw [if_neg fun comma => absurd comma.1 (by decide)]

theorem not_mem_fraction (isWhole : IsRun Char.isDigit whole) (arePlaces : IsRun Char.isDigit places)
    (point : c = ',' ∨ c = '.') {d : Char} (other : d.isDigit = false ∧ d ≠ ',' ∧ d ≠ '.') :
    d ∉ whole ++ c :: places := by
  intro member
  rcases List.mem_append.mp member with inWhole | member
  · exact not_mem_of_isRun isWhole other.1 inWhole
  · rcases List.mem_cons.mp member with rfl | inPlaces
    · exact point.elim other.2.1 other.2.2
    · exact not_mem_of_isRun arePlaces other.1 inPlaces

theorem decimalCommasToPoints_fraction (isWhole : IsRun Char.isDigit whole) (arePlaces : IsRun Char.isDigit places)
    (point : c = ',' ∨ c = '.') : decimalCommasToPoints (whole ++ c :: places) = whole ++ '.' :: places := by
  have noParen : '(' ∉ whole ++ c :: places := not_mem_fraction isWhole arePlaces point (by decide)
  have unmarked : separatorMark ∉ whole ++ '.' :: places := not_mem_fraction isWhole arePlaces (.inr rfl) (by decide)
  rw [decimalCommasToPoints, markSeparators, markFrom_of_no_openParen noParen,
    pointFrom_fraction isWhole arePlaces point, map_unmark unmarked]

theorem literalsInDecimal_fraction (other : base ≠ .decimal) (isWhole : IsRun base.isDigit i)
    (arePlaces : IsRun base.isDigit f) (point : c = ',' ∨ c = '.') :
    literalsInDecimal base (i ++ c :: f) = literalInDecimal base i ++ c :: literalInDecimal base f := by
  have plain := isWord_of_point point
  have separates : Separates [c] := fun d member => List.mem_singleton.mp member ▸ plain
  rw [literalsInDecimal, if_neg other, mapWords_run isWhole (Text.leaves_cons.mpr plain), ← List.singleton_append,
    mapWords_separator _ _ separates, mapWords_of_isRun arePlaces, List.singleton_append]

theorem prepare_fraction (other : base ≠ .decimal) (isWhole : IsRun base.isDigit i) (arePlaces : IsRun base.isDigit f)
    (point : c = ',' ∨ c = '.') :
    prepare base (i ++ c :: f) = .ok (literalInDecimal base i ++ '.' :: literalInDecimal base f) := by
  have unmarked : separatorMark ∉ i ++ c :: f := not_mem_fraction (NumeralBase.isRun_isDigit isWhole)
    (NumeralBase.isRun_isDigit arePlaces) point (by decide)
  rw [prepare_of_unmarked base unmarked, literalsInDecimal_fraction other isWhole arePlaces point,
    decimalCommasToPoints_fraction (isRun_literalInDecimal isWhole) (isRun_literalInDecimal arePlaces) point]

end Preparing

section Values

/-- The number with the digits of one number before the point and those of another one behind it. -/
def fraction (n m : ℕ) : ℚ := n + m / 10 ^ Decimal.digitCount m

theorem valueOf_digits_append (n : ℕ) (places : List Char) :
    Decimal.valueOf (NumeralBase.decimal.digits n ++ places) = 10 ^ places.length * n + Decimal.valueOf places := by
  rw [Decimal.valueOf, Nat.ofDigitChars_append, Nat.ofDigitChars_eq_ofDigitChars_zero, ← Decimal.valueOf,
    ← Decimal.valueOf, Decimal.valueOf_digits]

theorem readDecimal?_fraction (n m : ℕ) :
    (Decimal.readDecimal? (NumeralBase.decimal.digits n ++ '.' :: NumeralBase.decimal.digits m)).map
      Decimal.exactValue = some (fraction n m) := by
  have isWhole := NumeralBase.isRun_digits .decimal n
  have arePlaces := NumeralBase.isRun_digits .decimal m
  rw [Decimal.readDecimal?_of_point isWhole.1 isWhole.2 arePlaces.2, Option.map_some, Decimal.exactValue,
    valueOf_digits_append, Decimal.valueOf_digits, zpow_neg, zpow_natCast, fraction, Decimal.digitCount]
  push_cast
  field_simp

theorem numberOf?_fraction (other : base ≠ .decimal) (isWhole : IsRun base.isDigit i)
    (arePlaces : IsRun base.isDigit f) (shortWhole : (base.valueOf i : ℤ) ≤ Whole.greatest)
    (shortPlaces : (base.valueOf f : ℤ) ≤ Whole.greatest) (point : c = ',' ∨ c = '.') :
    numberOf? base (i ++ c :: f) = some (fraction (base.valueOf i) (base.valueOf f)) := by
  rw [numberOf?, prepare_fraction other isWhole arePlaces point, literalInDecimal_of_isRun isWhole,
    literalInDecimal_of_isRun arePlaces, if_pos shortWhole, if_pos shortPlaces]
  exact readDecimal?_fraction _ _

theorem digitCount_mul_pow (positive : 0 < n) (k : ℕ) :
    Decimal.digitCount (n * 10 ^ k) = Decimal.digitCount n + k := by
  induction k with
  | zero => rw [Nat.pow_zero, Nat.mul_one, Nat.add_zero]
  | succ k ih =>
    have zeros : 0 < n * 10 ^ k := by positivity
    have split : n * 10 ^ (k + 1) / 10 = n * 10 ^ k := by
      rw [Nat.pow_succ, ← Nat.mul_assoc, Nat.mul_div_cancel _ (by decide)]
    have large : 10 ≤ n * 10 ^ (k + 1) := by
      rw [Nat.pow_succ, ← Nat.mul_assoc]
      exact Nat.le_mul_of_pos_left 10 zeros
    have last : Decimal.digitCount (n * 10 ^ (k + 1)) = Decimal.digitCount (n * 10 ^ k) + 1 := by
      have digits := Nat.toDigits_of_base_le (b := 10) (by decide) large
      rw [split] at digits
      exact (congrArg List.length digits).trans List.length_append
    rw [last, ih, Nat.add_assoc]

theorem fraction_eq_iff_mul : fraction k m = fraction k n ↔
    m * 10 ^ Decimal.digitCount n = n * 10 ^ Decimal.digitCount m := by
  rw [fraction, fraction, add_right_inj, div_eq_div_iff (by positivity) (by positivity)]
  exact_mod_cast Iff.rfl

theorem mul_pow_of_zeros {z : ℕ} (zeros : m = n * 10 ^ z) :
    m * 10 ^ Decimal.digitCount n = n * 10 ^ Decimal.digitCount m := by
  by_cases nothing : n = 0
  · rw [zeros, nothing, Nat.zero_mul, Nat.zero_mul]
  · rw [zeros, digitCount_mul_pow (Nat.pos_of_ne_zero nothing), Nat.mul_assoc, ← Nat.pow_add, Nat.add_comm z]

theorem exists_zeros (same : m * 10 ^ Decimal.digitCount n = n * 10 ^ Decimal.digitCount m)
    (short : Decimal.digitCount n ≤ Decimal.digitCount m) : ∃ z, m = n * 10 ^ z := by
  obtain ⟨z, more⟩ := Nat.exists_eq_add_of_le short
  have power : 0 < 10 ^ Decimal.digitCount n := Nat.pow_pos (by decide)
  refine ⟨z, Nat.eq_of_mul_eq_mul_right power ?_⟩
  rw [same, more, Nat.mul_assoc, ← Nat.pow_add, Nat.add_comm]

/-- Places stand for the same fraction if one of them has only zeros more at its end. -/
theorem fraction_eq_iff : fraction k m = fraction k n ↔ ∃ z, m = n * 10 ^ z ∨ n = m * 10 ^ z := by
  rw [fraction_eq_iff_mul]
  constructor
  · intro same
    by_cases short : Decimal.digitCount n ≤ Decimal.digitCount m
    · obtain ⟨z, zeros⟩ := exists_zeros same short
      exact ⟨z, .inl zeros⟩
    · obtain ⟨z, zeros⟩ := exists_zeros same.symm (Nat.le_of_not_le short)
      exact ⟨z, .inr zeros⟩
  · rintro ⟨z, zeros | zeros⟩
    · exact mul_pow_of_zeros zeros
    · exact (mul_pow_of_zeros zeros).symm

/-- Fractions with the same digits before the comma are prepared as one number just if, in decimal, the whole number
behind one comma is that behind the other with zeros at its end. -/
theorem numberOf?_fraction_eq_iff (other : base ≠ .decimal) (isWhole : IsRun base.isDigit i)
    (arePlaces : IsRun base.isDigit f) (arePlaces' : IsRun base.isDigit g)
    (shortWhole : (base.valueOf i : ℤ) ≤ Whole.greatest) (shortPlaces : (base.valueOf f : ℤ) ≤ Whole.greatest)
    (shortPlaces' : (base.valueOf g : ℤ) ≤ Whole.greatest) (point : c = ',' ∨ c = '.') :
    (∃ q, numberOf? base (i ++ c :: f) = some q) ∧ (∃ q, numberOf? base (i ++ c :: g) = some q) ∧
      (numberOf? base (i ++ c :: f) = numberOf? base (i ++ c :: g) ↔
        ∃ z, base.valueOf f = base.valueOf g * 10 ^ z ∨ base.valueOf g = base.valueOf f * 10 ^ z) := by
  have number := numberOf?_fraction other isWhole arePlaces shortWhole shortPlaces point
  have number' := numberOf?_fraction other isWhole arePlaces' shortWhole shortPlaces' point
  refine ⟨⟨_, number⟩, ⟨_, number'⟩, ?_⟩
  rw [number, number', Option.some_inj]
  exact fraction_eq_iff

/-- In base 2 the literals 1,1 and 1,01 are one number, though their places differ. -/
theorem numberOf?_binary_leading_zero :
    IsRun NumeralBase.binary.isDigit ['1'] ∧ IsRun NumeralBase.binary.isDigit ['0', '1'] ∧
      Decimal.dropTrailingZeros ['1'] ≠ Decimal.dropTrailingZeros ['0', '1'] ∧
      numberOf? .binary ['1', ',', '1'] = some (11 / 10) ∧
      numberOf? .binary ['1', ',', '0', '1'] = some (11 / 10) := by
  have one : IsRun NumeralBase.binary.isDigit ['1'] := ⟨by decide, List.all_eq_true.mp (by decide)⟩
  have padded : IsRun NumeralBase.binary.isDigit ['0', '1'] := ⟨by decide, List.all_eq_true.mp (by decide)⟩
  have value : fraction 1 1 = 11 / 10 := by norm_num [fraction, show Decimal.digitCount 1 = 1 from rfl]
  rw [← value]
  exact ⟨one, padded, by decide, numberOf?_fraction (by decide) one one (by decide) (by decide) (.inl rfl),
    numberOf?_fraction (by decide) one padded (by decide) (by decide) (.inl rfl)⟩

/-- The places 1010 and 1100100 are ten and a hundred, the places 1 and 11 one and three. -/
theorem numberOf?_binary_fractions :
    let ten := ['1', '0', '1', '0']
    let hundred := ['1', '1', '0', '0', '1', '0', '0']
    let three := ['1', '1']
    (∀ run ∈ [['1'], ten, hundred, three], IsRun NumeralBase.binary.isDigit run ∧
      NumeralBase.binary.valueOf run ≤ Whole.greatest) ∧
      numberOf? .binary ('1' :: ',' :: ten) = numberOf? .binary ('1' :: ',' :: hundred) ∧
      numberOf? .binary ['1', '.', '1'] ≠ numberOf? .binary ('1' :: '.' :: three) := by
  intro ten hundred three
  have isRun {run : List Char} (nonempty : run ≠ []) (digits : run.all NumeralBase.binary.isDigit = true) :
      IsRun NumeralBase.binary.isDigit run := ⟨nonempty, List.all_eq_true.mp digits⟩
  have one : IsRun NumeralBase.binary.isDigit ['1'] := isRun nofun (by decide)
  have isTen : IsRun NumeralBase.binary.isDigit ten := isRun nofun (by decide)
  have isHundred : IsRun NumeralBase.binary.isDigit hundred := isRun nofun (by decide)
  have isThree : IsRun NumeralBase.binary.isDigit three := isRun nofun (by decide)
  refine ⟨?_, ?_, ?_⟩
  · simp only [List.forall_mem_cons, List.not_mem_nil, false_imp_iff, implies_true, and_true]
    exact ⟨⟨one, by decide⟩, ⟨isTen, by decide⟩, ⟨isHundred, by decide⟩, isThree, by decide⟩
  · have tenths := numberOf?_fraction_eq_iff (by decide) one isTen isHundred (by decide) (by decide) (by decide)
      (.inl rfl)
    exact tenths.2.2.mpr ⟨1, .inr (by decide)⟩
  · have units := numberOf?_fraction_eq_iff (by decide) one one isThree (by decide) (by decide) (by decide)
      (.inr rfl)
    refine mt units.2.2.mp ?_
    rintro ⟨z, multiple⟩
    have values : NumeralBase.binary.valueOf ['1'] = 1 ∧ NumeralBase.binary.valueOf three = 3 := by decide
    rw [values.1, values.2] at multiple
    cases z <;> omega

end Values

end Formula

end Calculator
