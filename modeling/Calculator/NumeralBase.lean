import Calculator.Text.Blank

namespace Calculator

inductive NumeralBase where
  | binary
  | octal
  | decimal
deriving DecidableEq, Repr

structure UnsupportedBase where
  text : String
deriving DecidableEq, Repr

def UnsupportedBase.message (e : UnsupportedBase) : String :=
  s!"Unsupported base '{e.text}'. Expected 2, 8 or 10."

namespace NumeralBase

def radix : NumeralBase → Nat
  | .binary => 2
  | .octal => 8
  | .decimal => 10

def digits (base : NumeralBase) (n : Nat) : List Char := Nat.toDigits base.radix n

def showInt (base : NumeralBase) (n : Int) : List Char :=
  if n < 0 then '-' :: base.digits n.natAbs else base.digits n.natAbs

def isDigit (base : NumeralBase) (c : Char) : Bool :=
  c.isDigit && decide (c.toNat - '0'.toNat < base.radix)

def readNat? (base : NumeralBase) (text : List Char) : Option Nat :=
  if text ≠ [] ∧ text.all base.isDigit then some (Nat.ofDigitChars base.radix text 0) else none

def ofRadix (radix : Nat) : Except UnsupportedBase NumeralBase :=
  if radix = 2 then .ok .binary
  else if radix = 8 then .ok .octal
  else if radix = 10 then .ok .decimal
  else .error ⟨String.ofList (NumeralBase.decimal.digits radix)⟩

def read (text : String) : Except UnsupportedBase NumeralBase :=
  let trimmed := Text.trim text.toList
  let digits := if trimmed.head? = some '+' then trimmed.tail else trimmed
  match decimal.readNat? digits with
  | some radix => if radix < 4294967296 then ofRadix radix else .error ⟨text⟩
  | none => .error ⟨text⟩

end NumeralBase

end Calculator
