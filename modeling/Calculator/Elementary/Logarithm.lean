import Calculator.DomainError
import Calculator.Elementary.Series

namespace Calculator.Elementary

def lnTwo : Float := Series.logarithm 2

def leastNormal : Float := .ofBits 0x0010000000000000

structure Scaled where
  value : Float
  steps : Nat

/-- More steps than any real takes, as exponents lie between -1074 and 1023. -/
def maxScalings : Nat := 1100

def doubleToNormal : (budget : Nat) → Scaled → Scaled
  | 0, s => s
  | budget + 1, s =>
    if s.value < leastNormal then doubleToNormal budget ⟨s.value * 2, s.steps + 1⟩ else s

def halveBelowTwo : (budget : Nat) → Scaled → Scaled
  | 0, s => s
  | budget + 1, s =>
    if s.value ≥ 2 then halveBelowTwo budget ⟨s.value / 2, s.steps + 1⟩ else s

def lnFromOne (a : Float) : Float :=
  let reduced := halveBelowTwo maxScalings ⟨a, 0⟩
  Float.ofNat reduced.steps * lnTwo + Series.logarithm reduced.value

def lnNormal (a : Float) : Float := if a < 1 then -lnFromOne (1 / a) else lnFromOne a

def lnPositive (a : Float) : Float :=
  if a < leastNormal then
    let scaled := doubleToNormal maxScalings ⟨a, 0⟩
    lnNormal scaled.value - Float.ofNat scaled.steps * lnTwo
  else lnNormal a

def ln (a : Float) : Except DomainError Float :=
  if a.isNaN || a.isInf then .error .overflow
  else if a ≤ 0 then .error .nonPositiveLogarithm
  else .ok (lnPositive a)

def log (a b : Float) : Except DomainError Float :=
  if a ≤ 0 then .error .nonPositiveLogarithm
  else if b ≤ 0 || b == 1 then .error .invalidLogarithmBase
  else do
    let dividend ← ln a
    let divisor ← ln b
    return dividend / divisor

end Calculator.Elementary
