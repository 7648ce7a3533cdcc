import Calculator.DomainError

namespace Calculator.Whole

def least : Int := -9223372036854775808

def greatest : Int := 9223372036854775807

def ofInt? (n : Int) : Option Int64 :=
  if least ≤ n ∧ n ≤ greatest then some (Int64.ofInt n) else none

theorem toInt_of_ofInt? {n : Int} {w : Int64} (h : ofInt? n = some w) : w.toInt = n := by
  unfold ofInt? at h
  split at h
  · next range =>
    cases h
    unfold least greatest at range
    exact Int64.toInt_ofInt_of_le (by omega) (by omega)
  · cases h

def add? (a b : Int64) : Option Int64 := ofInt? (a.toInt + b.toInt)

def sub? (a b : Int64) : Option Int64 := ofInt? (a.toInt - b.toInt)

def mul? (a b : Int64) : Option Int64 := ofInt? (a.toInt * b.toInt)

def neg? (a : Int64) : Option Int64 := ofInt? (-a.toInt)

def exactDiv? (a b : Int64) : Option Int64 :=
  if b.toInt ≠ 0 ∧ a.toInt % b.toInt = 0 then ofInt? (a.toInt / b.toInt) else none

/-- The exact power. A base of magnitude two or more leaves the range by the 64th power, and the powers
of the other bases depend on the parity of the exponent only. -/
def pow? (base : Int64) (exponent : Nat) : Option Int64 :=
  if exponent < 64 then ofInt? (Int.pow base.toInt exponent)
  else if base.toInt.natAbs ≤ 1 then ofInt? (Int.pow base.toInt (exponent % 2 + 2))
  else none

structure Division where
  quotient : Int64
  remainder : Int64
deriving DecidableEq, Repr

/-- Division toward negative infinity. The machine division goes toward zero and its remainder has the
sign of the dividend; where that is not the sign of the divisor, both are moved by one divisor. -/
def floorDiv (a b : Int64) : Except DomainError Division :=
  if b = 0 then .error .divisionByZero
  else if a = Int64.minValue ∧ b = -1 then .error .overflow
  else
    let quotient := a / b
    let remainder := a % b
    if remainder ≠ 0 ∧ decide (remainder < 0) ≠ decide (b < 0) then
      .ok { quotient := quotient - 1, remainder := remainder + b }
    else .ok { quotient, remainder }

end Calculator.Whole
