import Calculator.Proofs.Binary64.Magnitude
import Calculator.Proofs.Numeral
import Calculator.Proofs.Text.Runs

namespace Calculator.Decimal

variable {whole places : List Char}

theorem readReal?_of_readDecimal? {c : Char} {rest : List Char} {d : Decimal} (digit : c.isDigit = true)
    (known : readDecimal? (c :: rest) = some d) : readReal? (c :: rest) = some d.toReal := by
  simp only [readReal?, splitSign_of_digit digit, readUnsigned?, known]
  rfl

theorem readReal?_of_digits (nonempty : whole ≠ []) (inside : ∀ c ∈ whole, c.isDigit = true) :
    readReal? whole = some (toReal ⟨valueOf whole, 0⟩) := by
  have known : readDecimal? whole = some ⟨valueOf whole, 0⟩ := by
    have run := List.takeWhile_eq_self_iff.mpr inside
    have after := List.dropWhile_eq_nil_iff.mpr inside
    simp [readDecimal?, isDigit_eq, run, after, assemble?, nonempty, readExponent?]
  obtain ⟨c, rest, rfl⟩ := List.exists_cons_of_ne_nil nonempty
  exact readReal?_of_readDecimal? (inside c (by simp)) known

theorem readDecimal?_of_point (nonempty : whole ≠ []) (inside : ∀ c ∈ whole, c.isDigit = true)
    (insidePlaces : ∀ c ∈ places, c.isDigit = true) :
    readDecimal? (whole ++ '.' :: places) = some ⟨valueOf (whole ++ places), -places.length⟩ := by
  have point : Text.Leaves Char.isDigit ('.' :: places) := Text.leaves_cons.mpr rfl
  have run := List.takeWhile_eq_self_iff.mpr insidePlaces
  have after := List.dropWhile_eq_nil_iff.mpr insidePlaces
  simp [readDecimal?, isDigit_eq, Text.takeWhile_run inside point, Text.dropWhile_run inside point, run,
    after, assemble?, nonempty, readExponent?]

theorem readReal?_of_point (nonempty : whole ≠ []) (inside : ∀ c ∈ whole, c.isDigit = true)
    (insidePlaces : ∀ c ∈ places, c.isDigit = true) :
    readReal? (whole ++ '.' :: places) = some (toReal ⟨valueOf (whole ++ places), -places.length⟩) := by
  have known := readDecimal?_of_point nonempty inside insidePlaces
  obtain ⟨c, rest, rfl⟩ := List.exists_cons_of_ne_nil nonempty
  exact readReal?_of_readDecimal? (inside c (by simp)) known

open Float.Model (Format UnpackedFloat) in
theorem ofScientific_whole {n : Nat} (nonzero : n ≠ 0) : UnpackedFloat.ofScientific .binary64 n 0 =
    UnpackedFloat.roundWithAccuracy .binary64 .positive (n <<< 53 * 1) (-53 + 0) .exact := by
  have notHuge : ¬ (0 : Int) > 2 ^ Format.binary64.exponentBits := by decide
  have notTiny : ¬ (0 : Int) < -((2 ^ Format.binary64.exponentBits : Int) + n.log2) := by
    have power : (0 : Int) ≤ 2 ^ Format.binary64.exponentBits := by positivity
    omega
  delta UnpackedFloat.ofScientific
  rw [dif_neg nonzero, if_neg notHuge, if_neg notTiny, if_pos (Int.le_refl 0)]
  rfl

theorem isFinite_toReal_whole {n : Nat} (small : (n : Int) ≤ Whole.greatest) :
    (toReal ⟨n, 0⟩).isFinite = true := by
  change (Float.ofModel (.pack (.ofScientific .binary64 n 0))).isFinite = true
  by_cases zero : n = 0
  · subst n
    exact Binary64.isFinite_zero .positive
  · have digits : n.log2 ≤ 62 := by
      apply Binary64.log2_le_of_lt
      unfold Whole.greatest at small
      omega
    have shifted := Binary64.log2_shiftLeft_le n 53
    rw [ofScientific_whole zero, Nat.mul_one]
    exact Binary64.isFinite_roundWithAccuracy (by decide) (by omega)

end Calculator.Decimal
