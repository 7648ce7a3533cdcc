import Calculator.Proofs.Formula.Words
import Calculator.Proofs.Token.LongestMatch

namespace Calculator

open Token (IsRun)

namespace NumeralBase

def valueOf (base : NumeralBase) (digits : List Char) : Nat := Nat.ofDigitChars base.radix digits 0

variable {base : NumeralBase} {run : List Char}

theorem isRun_isDigit (isRun : IsRun base.isDigit run) : IsRun Char.isDigit run :=
  ⟨isRun.1, fun c member => (Bool.and_eq_true_iff.mp (isRun.2 c member)).1⟩

theorem isRun_digits (base : NumeralBase) (n : Nat) : IsRun Char.isDigit (base.digits n) :=
  ⟨base.digits_ne_nil n, fun _ => isDigit_of_mem_digits⟩

theorem readNat?_of_isRun (isRun : IsRun base.isDigit run) : base.readNat? run = some (base.valueOf run) :=
  if_pos ⟨isRun.1, List.all_eq_true.mpr isRun.2⟩

end NumeralBase

namespace Formula

open Text (isWord Leaves)
open NumeralBase (isRun_isDigit isRun_digits readNat?_of_isRun)

variable {base : NumeralBase} {run rest : List Char}

theorem literalInDecimal_of_isRun (isRun : IsRun base.isDigit run) : literalInDecimal base run =
    if (base.valueOf run : Int) ≤ Whole.greatest then NumeralBase.decimal.digits (base.valueOf run) else run := by
  rw [literalInDecimal, readNat?_of_isRun isRun]

theorem isRun_literalInDecimal (isRun : IsRun base.isDigit run) : IsRun Char.isDigit (literalInDecimal base run) := by
  rw [literalInDecimal_of_isRun isRun]
  split
  · exact isRun_digits .decimal _
  · exact isRun_isDigit isRun

theorem mapWords_run (isRun : IsRun base.isDigit run) (leaves : Leaves isWord rest) :
    mapWords (literalInDecimal base) (run ++ rest) =
      literalInDecimal base run ++ mapWords (literalInDecimal base) rest := by
  have inside : ∀ c ∈ run, isWord c = true := fun c member =>
    Text.isWord_of_isDigit ((isRun_isDigit isRun).2 c member)
  exact mapWords_word _ isRun.1 inside leaves

theorem mapWords_of_isRun (isRun : IsRun base.isDigit run) :
    mapWords (literalInDecimal base) run = literalInDecimal base run := by
  have mapped := mapWords_run isRun (Text.leaves_nil isWord)
  rwa [List.append_nil, mapWords, List.append_nil] at mapped

theorem not_mem_of_isRun {c : Char} (isRun : IsRun Char.isDigit run) (other : c.isDigit = false) : c ∉ run := by
  intro member
  rw [isRun.2 c member] at other
  cases other

theorem closeParentheses_of_isRun (isRun : IsRun Char.isDigit run) : closeParentheses run = run := by
  have plain : ∀ c ∈ run, c ≠ '(' ∧ c ≠ ')' := fun c member =>
    ⟨fun opens => not_mem_of_isRun isRun (by decide) (opens ▸ member),
      fun closes => not_mem_of_isRun isRun (by decide) (closes ▸ member)⟩
  rw [closeParentheses, unclosed, unclosed_append_plain plain]
  exact List.append_nil run

theorem prepare_of_isRun (other : base ≠ .decimal) (isRun : IsRun base.isDigit run) :
    prepare base run = .ok (literalInDecimal base run) := by
  have unmarked {run : List Char} (isRun : IsRun Char.isDigit run) : separatorMark ∉ run :=
    not_mem_of_isRun isRun (by decide)
  have inDecimal := isRun_literalInDecimal isRun
  rw [prepare_of_unmarked base (unmarked (isRun_isDigit isRun)), literalsInDecimal, if_neg other,
    mapWords_of_isRun isRun,
    decimalCommasToPoints_of_no_comma (not_mem_of_isRun inDecimal (by decide)) (unmarked inDecimal)]

end Formula

end Calculator
