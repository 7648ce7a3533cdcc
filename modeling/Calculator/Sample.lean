import Calculator.Binary64.Division
import Calculator.Elementary.Root

namespace Calculator.Sample

/-- The sum from left to right; that of no numbers is the negative zero. -/
def sum (values : List Float) : Float := values.foldl (· + ·) (-0.0)

def mean (values : List Float) : Except DomainError Float :=
  if values = [] then .error .insufficientData
  else Binary64.divide (sum values) (Float.ofNat values.length)

def atLeastZero (x : Float) : Float := if x > 0 then x else 0

/-- The root of (Σx² - n · mean²) / (n - 1). Rounding can bring the variance of nearly equal numbers below
zero, where it counts as zero, as does a variance that is not a number. -/
def standardDeviation (values : List Float) : Except DomainError Float :=
  if values.length < 2 then .error .insufficientData
  else do
    let n := Float.ofNat values.length
    let average ← mean values
    let squares := sum (values.map fun x => x * x)
    let variance ← Binary64.divide (squares - n * average * average) (n - 1)
    Elementary.sqrt (atLeastZero variance)

end Calculator.Sample
