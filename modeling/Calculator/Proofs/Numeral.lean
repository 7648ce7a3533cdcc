import Calculator.Decimal.Reader
import Calculator.Text.Word
import Mathlib.Data.List.Basic

namespace Calculator

namespace NumeralBase

theorem radix_bounds (base : NumeralBase) : 1 < base.radix ∧ base.radix ≤ 10 := by
  cases base <;> decide

theorem digits_ne_nil (base : NumeralBase) (n : Nat) : base.digits n ≠ [] := Nat.toDigits_ne_nil

theorem isDigit_of_mem_digits {base : NumeralBase} {n : Nat} {c : Char} (member : c ∈ base.digits n) :
    c.isDigit = true :=
  Nat.isDigit_of_mem_toDigits (Nat.lt_trans Nat.zero_lt_one base.radix_bounds.1) base.radix_bounds.2 member

theorem toNat_digitChar {d : Nat} (small : d < 10) : (Nat.digitChar d).toNat = '0'.toNat + d := by
  have cases : ∀ d : Fin 10, (Nat.digitChar d.val).toNat = '0'.toNat + d.val := by decide
  exact cases ⟨d, small⟩

theorem isDigit_digitChar {base : NumeralBase} {d : Nat} (small : d < base.radix) :
    base.isDigit (Nat.digitChar d) = true := by
  have decimal : d < 10 := Nat.lt_of_lt_of_le small base.radix_bounds.2
  simp [isDigit, Nat.isDigit_digitChar, decimal, toNat_digitChar decimal, small]

theorem all_isDigit_digits (base : NumeralBase) (n : Nat) : (base.digits n).all base.isDigit = true := by
  have radix := base.radix_bounds.1
  induction n using Nat.strongRecOn with
  | ind n ih =>
    rw [digits, Nat.toDigits_eq_if radix]
    split
    · rename_i small
      simp [isDigit_digitChar small]
    · rename_i large
      have shorter := ih (n / base.radix) (Nat.div_lt_self (by omega) radix)
      have last : base.isDigit (Nat.digitChar (n % base.radix)) = true :=
        isDigit_digitChar (Nat.mod_lt _ (by omega))
      rw [List.all_append, Bool.and_eq_true]
      exact ⟨shorter, by simp [last]⟩

theorem eq_zero_of_head?_digits (base : NumeralBase) {n : Nat} (zero : (base.digits n).head? = some '0') :
    n = 0 := by
  have radix := base.radix_bounds.1
  induction n using Nat.strongRecOn with
  | ind n ih =>
    rw [digits, Nat.toDigits_eq_if radix] at zero
    split at zero
    · rename_i small
      have first : (Nat.digitChar n).toNat = '0'.toNat + n :=
        toNat_digitChar (Nat.lt_of_lt_of_le small base.radix_bounds.2)
      rw [Option.some.inj zero] at first
      omega
    · rename_i large
      rw [List.head?_append_of_ne_nil _ Nat.toDigits_ne_nil] at zero
      have quotient : n / base.radix = 0 := ih _ (Nat.div_lt_self (by omega) radix) zero
      exact absurd ((Nat.div_eq_zero_iff_lt (by omega)).mp quotient) large

theorem digits_zero (base : NumeralBase) : base.digits 0 = ['0'] := by cases base <;> rfl

theorem readNat?_digits (base : NumeralBase) (n : Nat) : base.readNat? (base.digits n) = some n := by
  have wellFormed : base.digits n ≠ [] ∧ (base.digits n).all base.isDigit = true :=
    ⟨base.digits_ne_nil n, base.all_isDigit_digits n⟩
  rw [readNat?, if_pos wellFormed]
  exact congrArg some (Nat.ofDigitChars_toDigits base.radix_bounds.1 base.radix_bounds.2)

theorem isDigit_decimal (c : Char) : decimal.isDigit c = c.isDigit := by
  cases digit : c.isDigit with
  | false => simp [isDigit, digit]
  | true =>
    have small : c.toNat - '0'.toNat < decimal.radix := by
      have bounds : '0'.toNat ≤ c.toNat ∧ c.toNat ≤ '9'.toNat := by
        simpa [Char.isDigit, UInt32.le_iff_toNat_le] using digit
      change c.toNat - 48 < 10
      have upper : c.toNat ≤ 57 := bounds.2
      omega
    simp only [isDigit, digit, small, decide_true, Bool.and_true]

theorem showInt_of_nonneg {base : NumeralBase} {n : Int} (h : 0 ≤ n) :
    base.showInt n = base.digits n.natAbs := by
  simp [showInt, Int.not_lt.mpr h]

theorem showInt_of_neg {base : NumeralBase} {n : Int} (h : n < 0) :
    base.showInt n = '-' :: base.digits n.natAbs := by
  simp [showInt, h]

end NumeralBase

namespace Text

theorem isWord_of_isDigit {c : Char} (h : c.isDigit = true) : isWord c = true :=
  isWord_of_isAlphanum (by simp [Char.isAlphanum, h])

end Text

namespace Decimal

theorem isDigit_eq : isDigit = Char.isDigit := funext NumeralBase.isDigit_decimal

theorem splitSign_of_digit {c : Char} {rest : List Char} (digit : c.isDigit = true) :
    splitSign (c :: rest) = (false, c :: rest) := by
  unfold splitSign
  split
  · rename_i same
    cases same
    cases digit
  · rename_i same
    cases same
    cases digit
  · rfl

theorem readNat?_of_digits {text : List Char} (nonempty : text ≠ [])
    (inside : ∀ c ∈ text, c.isDigit = true) : NumeralBase.decimal.readNat? text = some (valueOf text) := by
  have digits : text.all NumeralBase.decimal.isDigit = true := by
    rw [List.all_eq_true]
    intro c member
    rw [NumeralBase.isDigit_decimal]
    exact inside c member
  rw [NumeralBase.readNat?, if_pos ⟨nonempty, digits⟩]
  rfl

theorem readWhole?_of_digits {text : List Char} (nonempty : text ≠ [])
    (inside : ∀ c ∈ text, c.isDigit = true) : readWhole? text = Whole.ofInt? (valueOf text) := by
  obtain ⟨c, rest, rfl⟩ := List.exists_cons_of_ne_nil nonempty
  simp only [readWhole?, splitSign_of_digit (inside c (by simp)), readNat?_of_digits nonempty inside]
  rfl

theorem valueOf_digits (n : Nat) : valueOf (NumeralBase.decimal.digits n) = n :=
  Nat.ofDigitChars_toDigits (by decide) (by decide)

theorem readWhole?_digits (n : Nat) : readWhole? (NumeralBase.decimal.digits n) = Whole.ofInt? n := by
  rw [readWhole?_of_digits (NumeralBase.digits_ne_nil _ n) fun _ => NumeralBase.isDigit_of_mem_digits,
    valueOf_digits]

end Decimal

namespace Whole

theorem ofInt?_toInt (w : Int64) : ofInt? w.toInt = some w := by
  have lower := Int64.le_toInt w
  have upper := Int64.toInt_lt w
  rw [ofInt?, if_pos (by unfold least greatest; omega), Int64.ofInt_toInt]

theorem natAbs_le_greatest {w : Int64} (sign : 0 ≤ w.toInt) : (w.toInt.natAbs : Int) ≤ greatest := by
  have upper := Int64.toInt_lt w
  unfold greatest
  omega

end Whole

end Calculator
