import Calculator.Binary64.Division
import Calculator.Elementary.Power
import Calculator.Value

namespace Calculator

inductive Operator where
  | add
  | sub
  | mul
  | div
  | pow
deriving DecidableEq, Repr

namespace Operator

def text : Operator → String
  | .add => "+"
  | .sub => "-"
  | .mul => "*"
  | .div => "/"
  | .pow => "^"

def exponentBound : Int := 4294967296

def onWhole? (op : Operator) (a b : Int64) : Option Int64 :=
  match op with
  | .add => Whole.add? a b
  | .sub => Whole.sub? a b
  | .mul => Whole.mul? a b
  | .div => Whole.exactDiv? a b
  | .pow => if 0 ≤ b.toInt ∧ b.toInt < exponentBound then Whole.pow? a b.toInt.toNat else none

def onReals (op : Operator) (a b : Float) : Except DomainError Float :=
  match op with
  | .add => .ok (a + b)
  | .sub => .ok (a - b)
  | .mul => .ok (a * b)
  | .div => Binary64.divide a b
  | .pow => Elementary.power a b

def wholeResult? (op : Operator) : Value → Value → Option Int64
  | .integer a, .integer b => op.onWhole? a b
  | _, _ => none

def apply (op : Operator) (a b : Value) : Except DomainError Value :=
  match op.wholeResult? a b with
  | some n => .ok (.integer n)
  | none => (op.onReals a.toReal b.toReal).map .real

end Operator

end Calculator
