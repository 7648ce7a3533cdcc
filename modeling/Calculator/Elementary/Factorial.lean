import Calculator.Binary64.Rounding
import Calculator.DomainError

namespace Calculator.Elementary

def maxFactorial : Nat := 170

def factorialProduct : Nat → Float
  | 0 => 1
  | n + 1 => factorialProduct n * Float.ofNat (n + 1)

def factorial (x : Float) : Except DomainError Float :=
  if x < 0 then .error .negativeFactorial
  else
    match Binary64.toInt? x with
    | none => .error .fractionalFactorial
    | some n => if n.natAbs ≤ maxFactorial then .ok (factorialProduct n.natAbs) else .error .overflow

end Calculator.Elementary
