import Calculator.Binary64.Rounding
import Calculator.Decimal.Shortest

namespace Calculator.Decimal

open Float.Model.UnpackedFloat (Sign)

def positional (d : Decimal) : List Char :=
  let text := digits d.significand
  match d.exponent with
  | .ofNat k => text ++ List.replicate k '0'
  | .negSucc k =>
    let padded := List.replicate (k + 2 - text.length) '0' ++ text
    padded.take (padded.length - (k + 1)) ++ '.' :: padded.drop (padded.length - (k + 1))

def signText : Sign → List Char
  | .negative => ['-']
  | .positive => []

def ofReal (x : Float) : List Char :=
  match x.toModel.unpack with
  | .notANumber => ['N', 'a', 'N']
  | .infinity sign => signText sign ++ ['i', 'n', 'f']
  | .zero sign => signText sign ++ ['0']
  | .finite sign mantissa exponent _ => signText sign ++ positional (shortest mantissa exponent)

def roundHalfEven (dividend divisor : Nat) : Nat :=
  let quotient := dividend / divisor
  let twice := 2 * (dividend % divisor)
  if twice < divisor then quotient
  else if divisor < twice then quotient + 1
  else quotient + quotient % 2

/-- `mantissa` · 2 ^ `exponent` in units of the last decimal place. -/
def unitsOfPlaces (places : Nat) (mantissa : Nat) (exponent : Int) : Nat :=
  match exponent with
  | .ofNat k => mantissa * Nat.pow 2 k * Nat.pow 10 places
  | .negSucc k => roundHalfEven (mantissa * Nat.pow 10 places) (Nat.pow 2 (k + 1))

def padded (places fraction : Nat) : List Char :=
  List.replicate (places - (digits fraction).length) '0' ++ digits fraction

def fixedUnits (places units : Nat) : List Char :=
  digits (units / Nat.pow 10 places) ++ '.' :: padded places (units % Nat.pow 10 places)

def fixed (places : Nat) (x : Float) : List Char :=
  match x.toModel.unpack with
  | .notANumber => ['N', 'a', 'N']
  | .infinity sign => signText sign ++ ['i', 'n', 'f']
  | .zero sign => signText sign ++ fixedUnits places 0
  | .finite sign mantissa exponent _ => signText sign ++ fixedUnits places (unitsOfPlaces places mantissa exponent)

def trimEnd (c : Char) (text : List Char) : List Char := (text.reverse.dropWhile (· = c)).reverse

def dropTrailingZeros (text : List Char) : List Char := trimEnd '0' text

/-- Zeros that end the places are dropped, but for one, and so is the sign of zero. -/
def shorten (text : List Char) : List Char :=
  let trimmed := trimEnd '.' (dropTrailingZeros text)
  if trimmed = ['-', '0'] then ['0', '.', '0']
  else if trimmed.contains '.' then trimmed
  else trimmed ++ ['.', '0']

/-- A real as an answer: rounded to the shown places, and zero without a sign. -/
def showReal (x : Float) : List Char := shorten (fixed Binary64.shownPlaces (Binary64.roundShown x))

end Calculator.Decimal
