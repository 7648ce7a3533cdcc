import Calculator.Binary64.Basic

namespace Calculator.Series

open Binary64 (abs)

def precision : Float := 1e-17

def logarithmPrecision : Float := 1e-20

def maxTerms : Nat := 10000

structure PartialSum where
  term : Float
  total : Float

/-- Advances a sum, whose next term has the number `n`, until it is settled or the budget is used up. -/
def run (settled : Nat → PartialSum → Bool) (advance : Nat → PartialSum → PartialSum) :
    (budget n : Nat) → PartialSum → PartialSum
  | 0, _, s => s
  | budget + 1, n, s =>
    if settled n s then s else run settled advance budget (n + 1) (advance n s)

def termIsSmall (_ : Nat) (s : PartialSum) : Bool := abs s.term ≤ precision

def sum (advance : Nat → PartialSum → PartialSum) (start : PartialSum) : Float :=
  (run termIsSmall advance maxTerms 1 start).total

def arctangent (x : Float) : Float :=
  sum (fun n s =>
    let power := s.term * ((-x) * x)
    { term := power, total := s.total + power / Float.ofNat (2 * n + 1) }) ⟨x, x⟩

def exponential (x : Float) : Float :=
  sum (fun n s =>
    let term := s.term * (x / Float.ofNat n)
    { term, total := s.total + term }) ⟨1, 1⟩

def sine (x : Float) : Float :=
  sum (fun n s =>
    let even := 2 * Float.ofNat n
    { term := s.term * ((-x) * x / (even * (even + 1))), total := s.total + s.term }) ⟨x, 0⟩

def cosine (x : Float) : Float :=
  sum (fun n s =>
    let even := 2 * Float.ofNat n
    let term := s.term * ((-x) * x / ((even - 1) * even))
    { term, total := s.total + term }) ⟨1, 1⟩

/-- 2 (x + x³/3 + x⁵/5 + …) for x = (a - 1)/(a + 1), which is the logarithm of `a`. -/
def logarithm (a : Float) : Float :=
  let x := (a - 1) / (a + 1)
  let quotient (n : Nat) (s : PartialSum) := s.term / Float.ofNat (2 * n + 1)
  2 * (run (fun n s => abs (quotient n s) ≤ logarithmPrecision)
    (fun n s => { term := s.term * (x * x), total := s.total + quotient n s }) maxTerms 0 ⟨x, 0⟩).total

def eulerNumber : Float :=
  (run (fun _ _ => false) (fun k s =>
    let term := s.term / Float.ofNat k
    { term, total := s.total + term }) 19 1 ⟨1, 1⟩).total

end Calculator.Series
