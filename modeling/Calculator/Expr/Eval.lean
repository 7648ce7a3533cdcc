import Calculator.EvalError
import Calculator.Expr.Basic
import Calculator.Function

namespace Calculator

def Value.checked (position : Nat) (v : Value) : Except EvalError Value :=
  if v.isFinite then .ok v else .error ⟨.overflow, position⟩

def Value.toWhole (position : Nat) (v : Value) : Except EvalError Int64 :=
  match v.toWhole? with
  | some n => .ok n
  | none => .error ⟨.expectedInteger, position⟩

def Operator.eval (op : Operator) (position : Nat) (a b : Value) : Except EvalError Value :=
  (op.apply a b).mapError (EvalError.ofDomain position)

def Function.apply? (f : Function) (arguments : List Value) : Option (Except DomainError Float) :=
  match f, arguments with
  | .constant x, [] => some (.ok x)
  | .unary g, [a] => some (g a.toReal)
  | .binary g, [a, b] => some (g a.toReal b.toReal)
  | _, _ => none

def Function.call (name : String) (position : Nat) (arguments : List Value) : Except EvalError Value :=
  match Function.find? name with
  | none => .error ⟨.unknownFunction name, position⟩
  | some f =>
    match f.apply? arguments with
    | none => .error ⟨.argumentCount name f.arity arguments.length, position⟩
    | some (.error e) => .error (EvalError.ofDomain position e)
    | some (.ok x) => (Value.real x).checked position

namespace Expr

def eval : Expr → Except EvalError Value
  | .number v _ => .ok v
  | .binary op left right position => do
    let a ← left.eval
    let b ← right.eval
    let v ← op.eval position a b
    v.checked position
  | .negation operand _ => do
    let v ← operand.eval
    return v.negate
  | .call0 name position => Function.call name position []
  | .call1 name argument position => do
    let v ← argument.eval
    Function.call name position [v]
  | .call2 name first second position => do
    let a ← first.eval
    let b ← second.eval
    Function.call name position [a, b]

/-- The value of a whole formula: finite, and written as a whole number if it is one. -/
def answer (e : Expr) : Except EvalError Value := do
  let v ← e.eval
  let finite ← v.checked e.position
  return finite.normalized

def floorDiv (left right : Expr) (position : Nat) : Except EvalError Whole.Division := do
  let a ← left.answer
  let dividend ← a.toWhole left.position
  let b ← right.answer
  let divisor ← b.toWhole right.position
  (Whole.floorDiv dividend divisor).mapError (EvalError.ofDomain position)

end Expr

end Calculator
