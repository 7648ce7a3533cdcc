import Calculator.Expr.Basic

namespace Calculator

inductive Node where
  | number (value : Value) (position : Nat)
  | binary (op : Operator) (position : Nat)
  | negation (position : Nat)
  | call0 (name : String) (position : Nat)
  | call1 (name : String) (position : Nat)
  | call2 (name : String) (position : Nat)
deriving DecidableEq, Repr

namespace Expr

def postorder : Expr → List Node
  | .number v p => [.number v p]
  | .binary op l r p => l.postorder ++ r.postorder ++ [.binary op p]
  | .negation e p => e.postorder ++ [.negation p]
  | .call0 name p => [.call0 name p]
  | .call1 name e p => e.postorder ++ [.call1 name p]
  | .call2 name e f p => e.postorder ++ f.postorder ++ [.call2 name p]

def push : Node → List Expr → Option (List Expr)
  | .number v p, stack => some (.number v p :: stack)
  | .binary op p, r :: l :: stack => some (.binary op l r p :: stack)
  | .negation p, e :: stack => some (.negation e p :: stack)
  | .call0 name p, stack => some (.call0 name p :: stack)
  | .call1 name p, e :: stack => some (.call1 name e p :: stack)
  | .call2 name p, f :: e :: stack => some (.call2 name e f p :: stack)
  | _, _ => none

def pushAll : List Node → List Expr → Option (List Expr)
  | [], stack => some stack
  | node :: nodes, stack => (push node stack).bind (pushAll nodes)

def ofPostorder? (nodes : List Node) : Option Expr :=
  match pushAll nodes [] with
  | some [e] => some e
  | _ => none

theorem pushAll_append (nodes more : List Node) (stack : List Expr) :
    pushAll (nodes ++ more) stack = (pushAll nodes stack).bind (pushAll more) := by
  induction nodes generalizing stack with
  | nil => rfl
  | cons node nodes ih =>
    simp only [List.cons_append, pushAll]
    cases push node stack with
    | none => rfl
    | some grown => simp [ih]

theorem pushAll_postorder (e : Expr) (stack : List Expr) :
    pushAll e.postorder stack = some (e :: stack) := by
  induction e generalizing stack with
  | number v p => rfl
  | binary op l r p ihl ihr => simp [postorder, pushAll_append, ihl, ihr, pushAll, push]
  | negation e p ih => simp [postorder, pushAll_append, ih, pushAll, push]
  | call0 name p => rfl
  | call1 name e p ih => simp [postorder, pushAll_append, ih, pushAll, push]
  | call2 name e f p ihe ihf => simp [postorder, pushAll_append, ihe, ihf, pushAll, push]

theorem ofPostorder?_postorder (e : Expr) : ofPostorder? e.postorder = some e := by
  simp [ofPostorder?, pushAll_postorder]

end Expr

end Calculator
