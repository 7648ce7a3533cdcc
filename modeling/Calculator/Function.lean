import Calculator.Elementary.Angle
import Calculator.Elementary.Factorial
import Calculator.Elementary.Root
import Calculator.Text.Fold

namespace Calculator

inductive Function where
  | constant (value : Float)
  | unary (apply : Float → Except DomainError Float)
  | binary (apply : Float → Float → Except DomainError Float)

namespace Function

def arity : Function → Nat
  | .constant _ => 0
  | .unary _ => 1
  | .binary _ => 2

def table : List (String × Function) := [
  ("sin", .unary Elementary.sin),
  ("cos", .unary Elementary.cos),
  ("tg", .unary Elementary.tg),
  ("cotg", .unary Elementary.cotg),
  ("ln", .unary Elementary.ln),
  ("log", .binary Elementary.log),
  ("sqrt", .unary Elementary.sqrt),
  ("√", .unary Elementary.sqrt),
  ("nthroot", .binary Elementary.nthroot),
  ("n√", .binary Elementary.nthroot),
  ("ⁿ√", .binary Elementary.nthroot),
  ("cbrt", .unary Elementary.cbrt),
  ("abs", .unary fun x => .ok (Binary64.abs x)),
  ("fact", .unary Elementary.factorial),
  ("e", .constant Series.eulerNumber),
  ("pi", .constant Elementary.pi),
  ("π", .constant Elementary.pi)]

def find? (name : String) : Option Function :=
  table.lookup (Text.foldName name)

end Function

end Calculator
