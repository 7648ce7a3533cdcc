import Calculator.Decimal.Reader
import Calculator.Decimal.Text

namespace Calculator

inductive Value where
  | integer (n : Int64)
  | real (x : Float)
deriving DecidableEq, Repr

instance : Inhabited Value := ⟨.integer 0⟩

structure UnreadableNumber where
  text : String
deriving DecidableEq, Repr

def UnreadableNumber.message (e : UnreadableNumber) : String :=
  s!"'{e.text}' is not a finite number."

namespace Value

def toReal : Value → Float
  | .integer n => Binary64.ofInt64 n
  | .real x => x

def wholeOfReal? (x : Float) : Option Int64 := (Binary64.toInt? x).bind Whole.ofInt?

def toWhole? : Value → Option Int64
  | .integer n => some n
  | .real x => wholeOfReal? x

def normalized (v : Value) : Value :=
  match v.toWhole? with
  | some n => .integer n
  | none => v

def isFinite : Value → Bool
  | .integer _ => true
  | .real x => x.isFinite

def negate : Value → Value
  | .integer n =>
    match Whole.neg? n with
    | some m => .integer m
    | none => .real (-Binary64.ofInt64 n)
  | .real x => .real (-x)

def text : Value → String
  | .integer n => String.ofList (NumeralBase.decimal.showInt n.toInt)
  | .real x => String.ofList (Decimal.ofReal x)

/-- The number as an answer: a whole one in the base of the formula, a real in decimal. -/
def render (base : NumeralBase) : Value → String
  | .integer n => String.ofList (base.showInt n.toInt)
  | .real x => String.ofList (Decimal.showReal x)

def read (source : String) : Except UnreadableNumber Value :=
  let trimmed := Text.trim source.toList
  match Decimal.readWhole? trimmed with
  | some n => .ok (.integer n)
  | none =>
    match Decimal.readReal? trimmed with
    | some x => if x.isFinite then .ok (.real x) else .error ⟨String.ofList trimmed⟩
    | none => .error ⟨String.ofList trimmed⟩

end Value

end Calculator
