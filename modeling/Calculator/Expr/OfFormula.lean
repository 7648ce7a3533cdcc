import Calculator.Expr.OfTokens
import Calculator.Formula.Parentheses
import Calculator.Formula.Prepare
import Calculator.Token.Scan

namespace Calculator.Expr

/-- The tree of a formula in a base, its parentheses closed. `last` is the value of the name `ans`. -/
def ofFormula (base : NumeralBase) (last : Value) (formula : List Char) : Except ParseError Expr := do
  let prepared ← Formula.prepare base (Formula.closeParentheses formula)
  let tokens ← Token.scan prepared
  ofTokens last tokens

end Calculator.Expr
