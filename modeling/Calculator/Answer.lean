import Calculator.Expr.Eval
import Calculator.Expr.OfFormula

namespace Calculator

structure Answer where
  text : String
  value : Value
deriving DecidableEq, Repr

inductive Failure where
  | parse (e : ParseError)
  | eval (e : EvalError)
deriving DecidableEq, Repr

def Failure.message : Failure → String
  | .parse e => e.message
  | .eval e => e.message

namespace Answer

def ofValue (base : NumeralBase) (value : Value) : Answer := ⟨value.render base, value⟩

def renderDivision (base : NumeralBase) (d : Whole.Division) : String :=
  String.ofList (base.showInt d.quotient.toInt) ++ " zv." ++
    String.ofList (base.showInt d.remainder.toInt)

def ofDivision (base : NumeralBase) (d : Whole.Division) : Answer :=
  ⟨renderDivision base d, .integer d.quotient⟩

def ofExpr (base : NumeralBase) (e : Expr) : Except EvalError Answer :=
  match e with
  | .binary .div left right position =>
    if base = .decimal then e.answer.map (ofValue base)
    else (left.floorDiv right position).map (ofDivision base)
  | _ => e.answer.map (ofValue base)

def compute (base : NumeralBase) (last : Value) (formula : String) : Except Failure Answer :=
  match Expr.ofFormula base last formula.toList with
  | .error e => .error (.parse e)
  | .ok e => (ofExpr base e).mapError .eval

def errorText : String := "Error"

def textOf : Except Failure Answer → String
  | .ok a => a.text
  | .error _ => errorText

end Answer

end Calculator
