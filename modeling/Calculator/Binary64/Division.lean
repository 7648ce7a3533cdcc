import Calculator.Binary64.Basic
import Calculator.DomainError

namespace Calculator.Binary64

def divide (a b : Float) : Except DomainError Float :=
  if b == 0 then .error .divisionByZero else .ok (a / b)

/-- What is left of `x` after taking away the whole multiples of `y` toward zero, with the sign of `x`. -/
def remainder (x y : Float) : Float :=
  match x.toModel.unpack, y.toModel.unpack with
  | .finite sign m e _, .finite _ n f _ =>
    let unit := if e ≤ f then e else f
    nearest sign ((m * Nat.pow 2 (e - unit).toNat) % (n * Nat.pow 2 (f - unit).toNat)) unit
  | .zero _, .finite .. | .zero _, .infinity _ | .finite .., .infinity _ => x
  | _, _ => notANumber

def euclideanRemainder (x y : Float) : Float :=
  let r := remainder x y
  if r < 0 then r + abs y else r

end Calculator.Binary64
