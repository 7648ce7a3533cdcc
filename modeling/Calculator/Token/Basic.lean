import Calculator.Operator

namespace Calculator

inductive Symbol where
  | integer (n : Int64)
  | real (x : Float)
  | name (text : String)
  | plus
  | minus
  | star
  | slash
  | caret
  | doubleStar
  | openParen
  | closeParen
  | comma
  | blank
  | done
deriving DecidableEq, Repr

structure Token where
  symbol : Symbol
  position : Nat
deriving DecidableEq, Repr

namespace Symbol

def text : Symbol → String
  | .integer n => (Value.integer n).text
  | .real x => (Value.real x).text
  | .name t => t
  | .plus => "+"
  | .minus => "-"
  | .star => "*"
  | .slash => "/"
  | .caret => "^"
  | .doubleStar => "**"
  | .openParen => "("
  | .closeParen => ")"
  | .comma => ","
  | .blank => " "
  | .done => "end of input"

def operator? : Symbol → Option Operator
  | .plus => some .add
  | .minus => some .sub
  | .star => some .mul
  | .slash => some .div
  | .caret => some .pow
  | .doubleStar => some .pow
  | _ => none

end Symbol

end Calculator
