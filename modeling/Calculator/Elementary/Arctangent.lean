import Calculator.Elementary.Series

namespace Calculator.Elementary

open Binary64 (abs)

/-- Machin's formula: 4 (4 arctan 1/5 - arctan 1/239). -/
def pi : Float := 4 * (4 * Series.arctangent (1 / 5) - Series.arctangent (1 / 239))

def arctanUpToOne (x : Float) : Float :=
  if abs x == 1 then x * pi / 4 else Series.arctangent x

/-- Beyond one, the arctangent is the right angle less that of the reciprocal. -/
def arctan (x : Float) : Float :=
  if abs x > 1 then
    let reflected := pi / 2 - arctanUpToOne (1 / abs x)
    if x < 0 then -reflected else reflected
  else arctanUpToOne x

end Calculator.Elementary
