import Calculator.Decimal.Basic

namespace Calculator.Decimal

/-- The numbers that round to a positive real, in quarters of the unit of its mantissa. The ends belong to
them when the mantissa is even. Below a power of two the reals lie closer together, so the lower end of
its interval is nearer. -/
structure Interval where
  lower : Nat
  value : Nat
  upper : Nat
  exponent : Int
  closed : Bool

def roundingInterval (mantissa : Nat) (exponent : Int) : Interval where
  lower := if mantissa = 4503599627370496 ∧ -1074 < exponent then 4 * mantissa - 1 else 4 * mantissa - 2
  value := 4 * mantissa
  upper := 4 * mantissa + 2
  exponent := exponent - 2
  closed := mantissa % 2 = 0

/-- The grid with the exponent `grid`, seen from an interval: `factor / divisor` times a number of the
interval counts grid steps. -/
def Interval.factor (i : Interval) (grid : Int) : Nat := Nat.pow 2 i.exponent.toNat * Nat.pow 10 (-grid).toNat

def Interval.divisor (i : Interval) (grid : Int) : Nat := Nat.pow 2 (-i.exponent).toNat * Nat.pow 10 grid.toNat

def Interval.holds (i : Interval) (grid : Int) (steps : Nat) : Bool :=
  let point := steps * i.divisor grid
  let lower := i.lower * i.factor grid
  let upper := i.upper * i.factor grid
  if i.closed then lower ≤ point && point ≤ upper else lower < point && point < upper

def Interval.nearest? (i : Interval) (grid : Int) : Option Decimal :=
  let value := i.value * i.factor grid
  let unit := i.divisor grid
  let below := value / unit
  let above := below + 1
  match i.holds grid below, i.holds grid above with
  | true, true => some ⟨if value - below * unit < above * unit - value then below else above, grid⟩
  | true, false => some ⟨below, grid⟩
  | false, true => some ⟨above, grid⟩
  | false, false => none

def grids : List Int := (List.range 635).map fun (n : Nat) => 310 - (n : Int)

/-- The shortest decimal that rounds to `mantissa` · 2 ^ `exponent`, for a positive mantissa. -/
def shortest (mantissa : Nat) (exponent : Int) : Decimal :=
  (grids.findSome? (roundingInterval mantissa exponent).nearest?).getD ⟨0, 0⟩

end Calculator.Decimal
