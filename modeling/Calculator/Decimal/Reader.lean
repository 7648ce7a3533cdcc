import Calculator.Decimal.Basic
import Calculator.Text.Fold
import Calculator.Whole

namespace Calculator.Decimal

def splitSign : List Char → Bool × List Char
  | '-' :: rest => (true, rest)
  | '+' :: rest => (false, rest)
  | text => (false, text)

def readWhole? (text : List Char) : Option Int64 :=
  let (negative, rest) := splitSign text
  match NumeralBase.decimal.readNat? rest with
  | some n => Whole.ofInt? (if negative then -(n : Int) else n)
  | none => none

def readExponent? : List Char → Option Int
  | [] => some 0
  | c :: rest =>
    let (negative, digits) := splitSign rest
    if (c = 'e' ∨ c = 'E') ∧ digits ≠ [] ∧ digits.all isDigit then
      some (if negative then -(valueOf digits : Int) else valueOf digits)
    else none

def assemble? (whole places exponent : List Char) : Option Decimal :=
  if whole = [] ∧ places = [] then none
  else (readExponent? exponent).map fun e => ⟨valueOf (whole ++ places), e - places.length⟩

def readDecimal? (text : List Char) : Option Decimal :=
  let whole := text.takeWhile isDigit
  match text.dropWhile isDigit with
  | '.' :: rest => assemble? whole (rest.takeWhile isDigit) (rest.dropWhile isDigit)
  | rest => assemble? whole [] rest

def readUnsigned? (text : List Char) : Option Float :=
  match readDecimal? text with
  | some d => some d.toReal
  | none =>
    let name := String.ofList (Text.fold text)
    if name = "inf" ∨ name = "infinity" then some Binary64.infinity
    else if name = "nan" then some Binary64.notANumber
    else none

/-- The real nearest to the number a text stands for. -/
def readReal? (text : List Char) : Option Float :=
  let (negative, rest) := splitSign text
  (readUnsigned? rest).map fun x => if negative then -x else x

end Calculator.Decimal
