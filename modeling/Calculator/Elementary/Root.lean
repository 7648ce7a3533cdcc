import Calculator.Binary64.Division
import Calculator.Elementary.Power

namespace Calculator.Elementary

open Binary64 (abs)

def rootTolerance : Float := 1e-10

/-- One Newton step for xⁿ = `radicand` where the degree is a whole number of two or more. The estimate
is kept where its power is zero or too large. -/
def newtonStep (estimate radicand degree : Float) : Float :=
  if estimate == 0 || degree < 2 || !Binary64.hasNoFraction degree then estimate
  else
    match power estimate (degree - 1) with
    | .ok lower =>
      if lower == 0 then estimate else ((degree - 1) * estimate + radicand / lower) / degree
    | .error _ => estimate

def unsnappedSqrt (a : Float) : Except DomainError Float := do
  let estimate ← power a 0.5
  return Binary64.roundShown (newtonStep estimate a 2)

def sqrt (a : Float) : Except DomainError Float :=
  if a < 0 then .error .negativeSquareRoot
  else do
    let root ← unsnappedSqrt a
    let whole := Binary64.round root
    return if abs (whole * whole - a) < rootTolerance then whole else root

def isOddWhole (n : Float) : Bool :=
  Binary64.hasNoFraction n && abs (Binary64.remainder n 2) == 1

/-- The root with the sign of the radicand, before it is moved to a whole number. -/
def unsnappedRoot (a n : Float) : Except DomainError Float := do
  let estimate ← power (abs a) (1 / n)
  let magnitude := newtonStep estimate (abs a) n
  return if a < 0 then -magnitude else magnitude

def nthroot (a n : Float) : Except DomainError Float :=
  if n == 0 then .error .divisionByZero
  else if a < 0 && !isOddWhole n then .error .evenRootOfNegative
  else do
    let root ← unsnappedRoot a n
    let whole := Binary64.round root
    match power whole n with
    | .ok raised => return if abs (raised - a) < rootTolerance then whole else root
    | .error _ => return root

def cbrt (a : Float) : Except DomainError Float := nthroot a 3

end Calculator.Elementary
