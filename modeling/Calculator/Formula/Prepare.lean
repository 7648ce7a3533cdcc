import Calculator.Formula.Commas
import Calculator.Formula.Literals
import Calculator.ParseError

namespace Calculator.Formula

def prepare (base : NumeralBase) (formula : List Char) : Except ParseError (List Char) :=
  match formula.findIdx? (· = separatorMark) with
  | some position => .error ⟨.unexpectedCharacter separatorMark, position⟩
  | none => .ok (decimalCommasToPoints (literalsInDecimal base formula))

end Calculator.Formula
