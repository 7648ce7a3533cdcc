import Calculator.Answer

namespace Calculator.Session

structure Line where
  formula : String
  base : NumeralBase
deriving DecidableEq, Repr

def nextAnswer (last : Value) : Except Failure Answer → Value
  | .ok a => a.value
  | .error _ => last

def run (last : Value) : List Line → List (Except Failure Answer) × Value
  | [] => ([], last)
  | line :: rest =>
    let outcome := Answer.compute line.base last line.formula
    let (outcomes, final) := run (nextAnswer last outcome) rest
    (outcome :: outcomes, final)

end Calculator.Session
