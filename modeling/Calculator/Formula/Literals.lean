import Calculator.NumeralBase
import Calculator.Text.Word
import Calculator.Whole

namespace Calculator.Formula

def mapWords (convert : List Char → List Char) (formula : List Char) : List Char :=
  match formula with
  | [] => []
  | c :: rest =>
    if Text.isWord c then
      convert (c :: rest.takeWhile Text.isWord) ++ mapWords convert (rest.dropWhile Text.isWord)
    else c :: mapWords convert rest
termination_by formula.length
decreasing_by
  · have := (List.dropWhile_sublist Text.isWord (l := rest)).length_le
    simp only [List.length_cons]
    omega
  · simp

/-- A word in decimal if it is a numeral of the base with a value of 64 bits, and else the word itself. -/
def literalInDecimal (base : NumeralBase) (word : List Char) : List Char :=
  match base.readNat? word with
  | some n => if (n : Int) ≤ Whole.greatest then NumeralBase.decimal.digits n else word
  | none => word

def literalsInDecimal (base : NumeralBase) (formula : List Char) : List Char :=
  if base = .decimal then formula else mapWords (literalInDecimal base) formula

end Calculator.Formula
