import Calculator.Binary64.Basic
import Calculator.NumeralBase

namespace Calculator

structure Decimal where
  significand : Nat
  exponent : Int
deriving DecidableEq, Repr

namespace Decimal

def toReal (d : Decimal) : Float := Binary64.ofDecimal d.significand d.exponent

def digits (n : Nat) : List Char := NumeralBase.decimal.digits n

def isDigit (c : Char) : Bool := NumeralBase.decimal.isDigit c

def valueOf (digits : List Char) : Nat := Nat.ofDigitChars 10 digits 0

end Decimal

end Calculator
