import Calculator.Operator

namespace Calculator

inductive Expr where
  | number (value : Value) (position : Nat)
  | binary (op : Operator) (left right : Expr) (position : Nat)
  | negation (operand : Expr) (position : Nat)
  | call0 (name : String) (position : Nat)
  | call1 (name : String) (argument : Expr) (position : Nat)
  | call2 (name : String) (first second : Expr) (position : Nat)
deriving DecidableEq, Repr

namespace Expr

def position : Expr → Nat
  | .number _ p => p
  | .binary _ _ _ p => p
  | .negation _ p => p
  | .call0 _ p => p
  | .call1 _ _ p => p
  | .call2 _ _ _ p => p

def text : Expr → String
  | .number v _ => v.text
  | .binary op l r _ => s!"({l.text} {op.text} {r.text})"
  | .negation e _ => s!"(-{e.text})"
  | .call0 name _ => s!"{name}()"
  | .call1 name e _ => s!"{name}({e.text})"
  | .call2 name e f _ => s!"{name}({e.text}, {f.text})"

end Expr

end Calculator
