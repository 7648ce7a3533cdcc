import Calculator.Binary64.Rounding
import Calculator.Elementary.Logarithm

namespace Calculator.Elementary

open Binary64 (abs)

def finite (x : Float) : Except DomainError Float :=
  if x.isFinite then .ok x else .error .overflow

def maxExponent : Float := 709.782712893384

def minExponent : Float := -745.1332191019412

def twoPow (k : Int) : Float := Binary64.nearest .positive 1 k

/-- Multiplies by 2 ^ `k` in two halves, each of which is a real itself. -/
def scaleByTwoPow (x : Float) (k : Int) : Float :=
  let half := k.tdiv 2
  x * twoPow half * twoPow (k - half)

/-- The argument is split into a whole number of logarithms of two and a small rest. -/
def exp (x : Float) : Except DomainError Float :=
  if x.isNaN || x > maxExponent then .error .overflow
  else if x < minExponent then .ok 0
  else
    let doublings := Binary64.round (x / lnTwo)
    let rest := x - doublings * lnTwo
    finite (scaleByTwoPow (Series.exponential rest) ((Binary64.toInt? doublings).getD 0))

def realPower (base exponent : Float) : Except DomainError Float :=
  if base > 0 then do
    let logarithm ← ln base
    exp (exponent * logarithm)
  else if exponent > 0 then .ok 0
  else .error .divisionByZero

/-- A negative power is the reciprocal of the positive one, or the power of the reciprocal where the
positive one is too large. -/
def reciprocalPower (base : Float) (n : Nat) : Float :=
  let denominator := Binary64.natPow base n
  if denominator.isFinite then 1 / denominator else Binary64.natPow (1 / base) n

def integerPower (base : Float) (n : Int) : Except DomainError Float :=
  if n < 0 then
    if base == 0 then .error .divisionByZero else finite (reciprocalPower base n.natAbs)
  else finite (Binary64.natPow base n.natAbs)

/-- Up to this magnitude, 2 ^ 53 - 1, a whole exponent is used as an integer. Beyond it all are even. -/
def maxIntegerExponent : Nat := 9007199254740991

def power (base exponent : Float) : Except DomainError Float :=
  match Binary64.toInt? exponent with
  | some n =>
    if n.natAbs ≤ maxIntegerExponent then integerPower base n else realPower (abs base) exponent
  | none => if base < 0 then .error .complexResult else realPower base exponent

end Calculator.Elementary
