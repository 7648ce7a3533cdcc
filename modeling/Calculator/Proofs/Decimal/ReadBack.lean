import Calculator.Proofs.Answer.Form
import Calculator.Proofs.Binary64.NaturalNumbers
import Calculator.Proofs.Binary64.ShownPlaces
import Calculator.Proofs.Formula.Fractions

namespace Calculator

open Binary64 (exactValue? nearestReal? rounded nearestEven shownUnits shownValue ofUnits IsShown)
open Float.Model (UnpackedFloat)
open Float.Model.UnpackedFloat (Sign)

namespace Decimal

variable {x : Float} {q : ℚ} {d : Decimal} {text rest : List Char} {c : Char} {k n places units : ℕ}

section Numbers

theorem exactValue?_toReal (d : Decimal) (whole : d.exponent = -(k + 1 : ℕ)) (few : k < 2048) :
    exactValue? d.toReal = nearestReal? d.exactValue := by
  obtain ⟨n, e⟩ := d
  obtain rfl : e = -(k + 1 : ℕ) := whole
  rcases Nat.eq_zero_or_pos n with rfl | positive
  · rw [exactValue, Nat.cast_zero, zero_mul, Binary64.nearestReal?_zero]
    exact Binary64.exactValue?_zero .positive
  have power : 0 < 10 ^ (k + 1) := Nat.pow_pos (by decide)
  have divides : UnpackedFloat.ofScientific .binary64 n (-(k + 1 : ℕ)) =
      .div .binary64 (.finite .positive n 0 positive) (.finite .positive (10 ^ (k + 1)) 0 power) := by
    have size : (2 : ℤ) ^ Float.Model.Format.binary64.exponentBits = 2048 := by rfl
    delta UnpackedFloat.ofScientific
    rw [dif_neg positive.ne', if_neg (by omega), if_neg (by omega), if_neg (by omega)]
    simp only [Int.neg_neg, Int.toNat_natCast]
  change exactValue? (.ofModel (.pack (.ofScientific .binary64 n _))) = _
  rw [divides, Binary64.exactValue?_div_finite, exactValue, zpow_zero, mul_one, mul_one, zpow_neg, zpow_natCast, ← div_eq_mul_inv]
  simp [Sign.apply]

theorem roundHalfEven_eq (n : ℕ) {u : ℕ} (positive : 0 < u) : (roundHalfEven n u : ℤ) = nearestEven (n / u) := by
  have unit : (0 : ℚ) < u := by exact_mod_cast positive
  have floor : ⌊(n / u : ℚ)⌋ = (n / u : ℕ) := Rat.floor_natCast_div_natCast n u
  have rest : (n / u : ℚ) - (n / u : ℕ) = (n % u : ℕ) / u := by
    have split : ((u * (n / u) + n % u : ℕ) : ℚ) = n := by rw [Nat.div_add_mod]
    push_cast at split ⊢
    field_simp
    linarith
  have half (a : ℕ) : (a / u : ℚ) < 1 / 2 ↔ 2 * a < u := by
    rw [div_lt_div_iff₀ unit two_pos]
    exact_mod_cast (by omega : a * 2 < 1 * u ↔ 2 * a < u)
  have half' (a : ℕ) : (1 / 2 : ℚ) < a / u ↔ u < 2 * a := by
    rw [div_lt_div_iff₀ two_pos unit]
    exact_mod_cast (by omega : 1 * u < a * 2 ↔ u < 2 * a)
  rw [nearestEven, floor, Int.cast_natCast, rest, roundHalfEven]
  simp only [half, half']
  split_ifs <;> push_cast <;> rfl

theorem unitsOfPlaces_eq (places m : ℕ) (e : ℤ) :
    (unitsOfPlaces places m e : ℤ) = nearestEven (m * 2 ^ e * 10 ^ places) := by
  cases e with
  | ofNat k =>
    have whole : (m * 2 ^ Int.ofNat k * 10 ^ places : ℚ) = (m * 2 ^ k * 10 ^ places : ℤ) := by
      rw [Int.ofNat_eq_natCast, zpow_natCast]
      push_cast
      rfl
    rw [whole, Binary64.nearestEven_intCast]
    change ((m * 2 ^ k * 10 ^ places : ℕ) : ℤ) = _
    push_cast
    rfl
  | negSucc k =>
    have quotient : (m * 2 ^ Int.negSucc k * 10 ^ places : ℚ) = (m * 10 ^ places : ℕ) / (2 ^ (k + 1) : ℕ) := by
      rw [zpow_negSucc]
      push_cast
      ring
    rw [quotient]
    exact roundHalfEven_eq _ (Nat.two_pow_pos _)

end Numbers

section Texts

theorem exists_dropped_zeros (text : List Char) : ∃ k, text = dropTrailingZeros text ++ List.replicate k '0' := by
  refine ⟨(text.reverse.takeWhile (· = '0')).length, ?_⟩
  have zeros : text.reverse.takeWhile (· = '0') = List.replicate (text.reverse.takeWhile (· = '0')).length '0' := by
    refine List.eq_replicate_of_mem fun c member => ?_
    exact of_decide_eq_true (List.all_eq_true.mp List.all_takeWhile c member)
  rw [dropTrailingZeros, trimEnd, ← List.reverse_replicate, ← zeros, ← List.reverse_append, List.takeWhile_append_dropWhile,
    List.reverse_reverse]

theorem valueOf_padded (places fraction : ℕ) : valueOf (padded places fraction) = fraction := by
  rw [valueOf, padded, Nat.ofDigitChars_append, Nat.ofDigitChars_replicate_zero, Nat.mul_zero]
  exact valueOf_digits fraction

theorem valueOf_shownFraction {fraction : ℕ} (positive : 0 < places) (small : fraction < Nat.pow 10 places) :
    (valueOf (shownFraction places fraction) : ℚ) / 10 ^ (shownFraction places fraction).length =
      fraction / 10 ^ places := by
  obtain ⟨k, split⟩ := exists_dropped_zeros (padded places fraction)
  have value := valueOf_padded places fraction
  have length := length_padded positive small
  unfold shownFraction
  generalize dropTrailingZeros (padded places fraction) = kept at split ⊢
  rw [split, List.length_append, List.length_replicate] at length
  rw [split, valueOf, Nat.ofDigitChars_append, Nat.ofDigitChars_replicate_zero, ← valueOf] at value
  rw [← value, ← length]
  split_ifs with none
  · rw [none]
    simp [valueOf, Nat.ofDigitChars_cons]
  · rw [pow_add]
    push_cast
    rw [mul_comm (10 ^ k : ℚ), mul_div_mul_right _ _ (by positivity)]

theorem exists_digit_showUnits (places units : ℕ) : ∃ c rest, showUnits places units = c :: rest ∧ c.isDigit = true := by
  obtain ⟨c, rest, shown⟩ := List.exists_cons_of_ne_nil (NumeralBase.decimal.digits_ne_nil (units / Nat.pow 10 places))
  refine ⟨c, rest ++ '.' :: shownFraction places (units % Nat.pow 10 places), ?_, ?_⟩
  · rw [showUnits, ← List.cons_append, ← shown]
    rfl
  · exact NumeralBase.isDigit_of_mem_digits (by rw [shown]; exact List.mem_cons_self)

theorem point_mem_showUnits : '.' ∈ showUnits places units := by
  rw [showUnits]
  exact List.mem_append_right _ List.mem_cons_self

theorem readReal?_minus (digit : c.isDigit = true) :
    readReal? ('-' :: c :: rest) = (readReal? (c :: rest)).map (-·) := by
  simp only [readReal?, splitSign_of_digit digit, Option.map_map]
  rfl

/-- Where the units are those of a finite real, that is what their text is read as, whichever sign it has. -/
theorem readReal?_showUnits (positive : 0 < places) (few : places ≤ 10) (units : ℕ) :
    ∃ x, readReal? (showUnits places units) = some x ∧
      readReal? ('-' :: showUnits places units) = some (-x) ∧
      exactValue? x = nearestReal? (units / 10 ^ places) := by
  have small : units % Nat.pow 10 places < Nat.pow 10 places := Nat.mod_lt _ (Nat.pow_pos (by decide))
  have isPlaces := isPlaces_shownFraction positive few small
  have isWhole := NumeralBase.decimal.isNumeral_digits (units / Nat.pow 10 places)
  have digits : ∀ c ∈ NumeralBase.decimal.digits (units / Nat.pow 10 places), c.isDigit = true :=
    fun _ => NumeralBase.isDigit_of_mem_digits
  have known := readReal?_of_point isWhole.nonempty digits isPlaces.digits
  have text : showUnits places units = NumeralBase.decimal.digits (units / Nat.pow 10 places) ++
      '.' :: shownFraction places (units % Nat.pow 10 places) := rfl
  rw [← text] at known
  refine ⟨_, known, ?_, ?_⟩
  · obtain ⟨c, rest, shown, digit⟩ := exists_digit_showUnits places units
    rw [shown] at known ⊢
    rw [readReal?_minus digit, known]
    rfl
  · obtain ⟨k, length⟩ := Nat.exists_eq_add_one_of_ne_zero (List.length_pos_iff.mpr isPlaces.nonempty).ne'
    have short := isPlaces.short
    rw [exactValue?_toReal (k := k) _ (by rw [length]) (by omega)]
    congr 1
    have value := valueOf_shownFraction positive small
    have parts : ((Nat.pow 10 places * (units / Nat.pow 10 places) + units % Nat.pow 10 places : ℕ) : ℚ) = units := by
      rw [Nat.div_add_mod]
    have power : ((Nat.pow 10 places : ℕ) : ℚ) = 10 ^ places := by
      rw [Nat.pow_eq]
      push_cast
      rfl
    rw [Nat.cast_add, Nat.cast_mul, power] at parts
    rw [exactValue, Formula.valueOf_digits_append, zpow_neg, zpow_natCast, ← div_eq_mul_inv, ← parts, add_div, ← value,
      mul_div_cancel_left₀ _ (by positivity)]
    push_cast
    rw [add_div, mul_div_cancel_left₀ _ (by positivity)]

theorem readWhole?_eq_none (point : '.' ∈ (splitSign text).2) : readWhole? text = none := by
  have notDigits : ¬ ((splitSign text).2 ≠ [] ∧ (splitSign text).2.all NumeralBase.decimal.isDigit = true) := by
    rintro ⟨-, digits⟩
    cases List.all_eq_true.mp digits '.' point
  unfold readWhole?
  simp only [NumeralBase.readNat?, if_neg notDigits]

theorem trim_of_solid (solid : ∀ c ∈ text, Text.isBlank c = false) : Text.trim text = text := by
  have kept {run : List Char} (solid : ∀ c ∈ run, Text.isBlank c = false) : run.dropWhile Text.isBlank = run := by
    cases run with
    | nil => rfl
    | cons c rest => simp [solid c List.mem_cons_self]
  rw [Text.trim, kept solid, kept fun c member => solid c (List.mem_reverse.mp member), List.reverse_reverse]

theorem not_isBlank_of_isDigit (digit : c.isDigit = true) : Text.isBlank c = false := by
  have bounds : '0'.toNat ≤ c.toNat ∧ c.toNat ≤ '9'.toNat := by
    simpa [Char.isDigit, UInt32.le_iff_toNat_le] using digit
  have lower : 48 ≤ c.toNat := bounds.1
  have upper : c.toNat ≤ 57 := bounds.2
  simp only [Text.isBlank, Bool.or_eq_false_iff, Bool.and_eq_false_iff, decide_eq_false_iff_not, beq_eq_false_iff_ne]
  omega

theorem isDigit_or_point_of_mem_showUnits (positive : 0 < places) (few : places ≤ 10)
    (member : c ∈ showUnits places units) : c.isDigit = true ∨ c = '.' := by
  rw [showUnits] at member
  rcases List.mem_append.mp member with inWhole | behind
  · exact .inl (NumeralBase.isDigit_of_mem_digits inWhole)
  · rcases List.mem_cons.mp behind with point | inPlaces
    · exact .inr point
    · exact .inl ((isPlaces_shownFraction positive few (Nat.mod_lt _ (Nat.pow_pos (by decide)))).digits c inPlaces)

end Texts

section Shown

def shownText (q : ℚ) : List Char := (if q < 0 then ['-'] else []) ++ showUnits 10 (shownUnits q).toNat

theorem showReal_eq (known : exactValue? x = some q) : showReal x = shownText (shownValue q) := by
  obtain ⟨value, shown⟩ := Binary64.exactValue?_roundShown known
  generalize shownValue q = v at value shown ⊢
  rw [showReal_eq_units]
  rcases Binary64.exactValue?_cases value with ⟨sign, unpacked, rfl⟩ | ⟨sign, m, e, positive, unpacked, canonical, rfl⟩
  · rw [unpacked, shownText, if_neg (lt_irrefl _), Binary64.shownUnits_zero]
    rfl
  · have units : (unitsOfPlaces Binary64.shownPlaces m e : ℤ) = shownUnits ((sign.apply m : ℤ) * 2 ^ e) := by
      rw [unitsOfPlaces_eq, shownUnits, Binary64.abs_signed]
      rfl
    have some : unitsOfPlaces Binary64.shownPlaces m e ≠ 0 := by
      intro none
      have zero := shown.ofUnits_shownUnits
      rw [← units, none, Nat.cast_zero, Binary64.ofUnits_zero, Binary64.abs_signed] at zero
      exact (Binary64.magnitude_pos positive e).ne zero
    have signed : (if ((sign.apply m : ℤ) * 2 ^ e : ℚ) < 0 then ['-'] else []) = signText sign := by
      have magnitude := Binary64.magnitude_pos positive e
      cases sign with
      | positive =>
        rw [Binary64.apply_positive, if_neg magnitude.not_gt]
        rfl
      | negative =>
        rw [Binary64.apply_negative, neg_mul, if_pos (neg_lt_zero.mpr magnitude)]
        rfl
    rw [unpacked, shownText, signed, ← units, Int.toNat_natCast]
    simp only [if_neg some]
    rfl

theorem read_shownText (shown : IsShown q) :
    ∃ y, Value.read (String.ofList (shownText q)) = .ok (.real y) ∧ exactValue? y = some q := by
  obtain ⟨x, unsigned, signed, value⟩ :=
    readReal?_showUnits (by decide : 0 < 10) le_rfl (shownUnits q).toNat
  have units : (((shownUnits q).toNat : ℕ) : ℚ) = shownUnits q := by
    exact_mod_cast Int.toNat_of_nonneg (Binary64.shownUnits_nonneg q)
  have magnitude : exactValue? x = some |q| := by
    have back : rounded (shownUnits q / 10 ^ 10) = |q| := shown.ofUnits_shownUnits
    rw [value, units, nearestReal?, back, abs_abs, if_pos (Binary64.representable_iff.mp shown.1).1]
  have solid : ∀ c ∈ shownText q, Text.isBlank c = false := by
    intro c member
    rcases List.mem_append.mp member with sign | inUnits
    · split at sign
      · rw [List.mem_singleton.mp sign]
        rfl
      · cases sign
    · rcases isDigit_or_point_of_mem_showUnits (by decide) le_rfl inUnits with digit | rfl
      · exact not_isBlank_of_isDigit digit
      · rfl
  have notWhole : readWhole? (shownText q) = none := by
    apply readWhole?_eq_none
    unfold shownText
    split
    · exact point_mem_showUnits
    · obtain ⟨c, rest, first, digit⟩ := exists_digit_showUnits 10 (shownUnits q).toNat
      rw [List.nil_append, first, splitSign_of_digit digit, ← first]
      exact point_mem_showUnits
  have real : ∃ y, readReal? (shownText q) = some y ∧ exactValue? y = some q := by
    rw [shownText]
    split
    · rename_i negative
      refine ⟨-x, signed, ?_⟩
      rw [Binary64.exactValue?_neg magnitude, abs_of_neg negative, neg_neg]
    · rename_i nonnegative
      refine ⟨x, unsigned, ?_⟩
      rw [magnitude, abs_of_nonneg (not_lt.mp nonnegative)]
  obtain ⟨y, reads, known⟩ := real
  refine ⟨y, ?_, known⟩
  simp only [Value.read, String.toList_ofList, trim_of_solid solid, notWhole, reads,
    Binary64.isFinite_iff_exactValue?.mpr ⟨q, known⟩, if_true]

end Shown

end Decimal

end Calculator
