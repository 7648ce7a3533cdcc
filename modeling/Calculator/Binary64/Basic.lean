namespace Calculator.Binary64

open Float.Model (UnpackedFloat)
open Float.Model.UnpackedFloat (Sign)

/-- The real nearest to ± `mantissa` · 2 ^ `exponent`. A zero keeps the sign. -/
def nearest (sign : Sign) (mantissa : Nat) (exponent : Int) : Float :=
  .ofModel (.pack (.round .binary64 sign mantissa exponent))

def ofInt (n : Int) : Float :=
  nearest (if n < 0 then .negative else .positive) n.natAbs 0

def ofInt64 (n : Int64) : Float := ofInt n.toInt

def ofDecimal (mantissa : Nat) (exponent : Int) : Float :=
  .ofModel (.ofScientific mantissa exponent)

def infinity : Float := .ofModel (.pack (.infinity .positive))

def notANumber : Float := .ofModel (.pack .notANumber)

def toInt? (x : Float) : Option Int :=
  match x.toModel.unpack with
  | .zero _ => some 0
  | .finite sign mantissa (.ofNat k) _ => some (sign.apply (mantissa * Nat.pow 2 k))
  | .finite sign mantissa (.negSucc k) _ =>
    let unit := Nat.pow 2 (k + 1)
    if mantissa % unit = 0 then some (sign.apply (mantissa / unit)) else none
  | _ => none

def abs (x : Float) : Float := if x < 0 then -x else x

end Calculator.Binary64
