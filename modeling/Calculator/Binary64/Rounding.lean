import Calculator.Binary64.Basic

namespace Calculator.Binary64

open Float.Model.UnpackedFloat (Sign)

/-- Changes the magnitude of a real that has binary places: `f mantissa unit` is the whole number put
for `mantissa / unit`. -/
def mapMagnitude (f : Nat → Nat → Nat) (x : Float) : Float :=
  match x.toModel.unpack with
  | .finite sign mantissa (.negSucc k) _ => nearest sign (f mantissa (Nat.pow 2 (k + 1))) 0
  | _ => x

def truncate : Float → Float := mapMagnitude fun mantissa unit => mantissa / unit

def round : Float → Float := mapMagnitude fun mantissa unit => (mantissa + unit / 2) / unit

def fraction (x : Float) : Float := x - truncate x

def hasNoFraction (x : Float) : Bool := fraction x == 0

def isWhole (x : Float) : Bool := x.isFinite && hasNoFraction x

def mulPow (result factor : Float) (n : Nat) : Float :=
  if n = 0 then result
  else mulPow (if n % 2 = 1 then result * factor else result) (factor * factor) (n / 2)
termination_by n
decreasing_by omega

def natPow (base : Float) (n : Nat) : Float := mulPow 1 base n

def intPow (base : Float) (n : Int) : Float :=
  if n < 0 then 1 / natPow base n.natAbs else natPow base n.natAbs

/-- From this magnitude on a real has too few binary places for rounding to decimal ones. -/
def roundingLimit : Float := 1e15

def roundTo (x : Float) (places : Int) : Float :=
  if abs x ≥ roundingLimit then x
  else
    let scale := intPow 10 places
    round (x * scale) / scale

def shownPlaces : Nat := 10

def roundShown (x : Float) : Float := roundTo x shownPlaces

/-- Replaces a real by the nearest whole number when that is closer than `tolerance`. -/
def snap (x tolerance : Float) : Float :=
  let whole := round x
  if abs (x - whole) < tolerance then whole else x

end Calculator.Binary64
