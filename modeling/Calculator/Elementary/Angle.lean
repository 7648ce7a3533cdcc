import Calculator.Binary64.Division
import Calculator.Binary64.Rounding
import Calculator.Elementary.Arctangent

namespace Calculator.Elementary

open Binary64 (abs snap)

def radians (degrees : Float) : Float := degrees * pi / 180

def sineToRightAngle (degrees : Float) : Float :=
  if degrees > 45 then Series.cosine (radians (90 - degrees)) else Series.sine (radians degrees)

def cosineToRightAngle (degrees : Float) : Float :=
  if degrees > 45 then Series.sine (radians (90 - degrees)) else Series.cosine (radians degrees)

def sineToHalfTurn (degrees : Float) : Float :=
  sineToRightAngle (if degrees > 90 then 180 - degrees else degrees)

def cosineToHalfTurn (degrees : Float) : Float :=
  if degrees > 90 then -cosineToRightAngle (180 - degrees) else cosineToRightAngle degrees

/-- Half a turn changes the sign and a whole turn changes nothing. -/
def overTurn (toHalfTurn : Float → Float) (degrees : Float) : Float :=
  if degrees ≥ 360 then toHalfTurn (degrees - 360)
  else if degrees ≥ 180 then -toHalfTurn (degrees - 180)
  else toHalfTurn degrees

def reduce (degrees : Float) : Except DomainError Float :=
  if degrees.isFinite then .ok (Binary64.euclideanRemainder degrees 360) else .error .overflow

def sin (degrees : Float) : Except DomainError Float := do
  let reduced ← reduce degrees
  return snap (overTurn sineToHalfTurn reduced) Series.precision

def cos (degrees : Float) : Except DomainError Float := do
  let reduced ← reduce degrees
  return snap (overTurn cosineToHalfTurn reduced) Series.precision

def tg (degrees : Float) : Except DomainError Float := do
  let cosine ← cos degrees
  if abs cosine < Series.precision then .error .undefinedTangent
  else
    let sine ← sin degrees
    return snap (sine / cosine) Series.precision

def cotg (degrees : Float) : Except DomainError Float := do
  let sine ← sin degrees
  if abs sine < Series.precision then .error .undefinedCotangent
  else
    let cosine ← cos degrees
    return snap (cosine / sine) Series.precision

end Calculator.Elementary
