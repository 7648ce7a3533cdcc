import Calculator.Expr.Basic
import Calculator.Function
import Calculator.ParseError

namespace Calculator.Expr

def maxNesting : Nat := 256

def maxOperators : Nat := 1000

inductive Opening where
  | group (position : Nat)
  | call (position : Nat)
deriving DecidableEq, Repr

/-- What the parsers are run in. A token is looked at before it is taken, and the nestings a parser is in and
    the binary operators it has counted are limited. -/
class Parsing (m : Type → Type) extends Monad m where
  fail {α : Type} (reason : ParseError.Reason) (position : Nat) : m α
  peek : m (Option Token)
  remaining : m Nat
  advance : m Unit
  enter (o : Opening) : m Unit
  leave : m Unit
  countOperator (position : Nat) : m Unit
  nested {α : Type} (parser : m α) : m α

open Parsing

variable {m : Type → Type} [Parsing m]

/-- Reads on from a left operand as long as one of the accepted operators follows. `fuel` bounds the number of
    operands, each of which takes a token. -/
def chainFrom (accepts : Operator → Bool) (operand : m Expr) (fuel : Nat) (left : Expr) : m Expr :=
  match fuel with
  | 0 => pure left
  | fuel + 1 => do
    match ← peek with
    | none => pure left
    | some t =>
      match t.symbol.operator?.filter accepts with
      | none => pure left
      | some op =>
        countOperator t.position
        advance
        let right ← operand
        chainFrom accepts operand fuel (.binary op left right t.position)

def chain (accepts : Operator → Bool) (operand : m Expr) : m Expr := do
  let first ← operand
  let fuel ← remaining
  chainFrom accepts operand (fuel + 1) first

def isMultiplicative (op : Operator) : Bool := op = .mul || op = .div

def isAdditive (op : Operator) : Bool := op = .add || op = .sub

def productOf (power : m Expr) : m Expr := chain isMultiplicative power

def sumOf (power : m Expr) : m Expr := chain isAdditive (productOf power)

def powerOf (factor exponent : m Expr) : m Expr := do
  let base ← factor
  match ← peek with
  | none => pure base
  | some t =>
    if t.symbol.operator? = some .pow then
      countOperator t.position
      advance
      let right ← exponent
      pure (.binary .pow base right t.position)
    else pure base

def argumentsFrom (opened : Nat) (argument : m Expr) (fuel : Nat) : m (List Expr) :=
  match fuel with
  | 0 => fail .unexpectedEnd 0
  | fuel + 1 => do
    let first ← argument
    match ← peek with
    | none => fail .expectedClosingParen opened
    | some t =>
      match t.symbol with
      | .comma =>
        advance
        let others ← argumentsFrom opened argument fuel
        pure (first :: others)
      | .closeParen =>
        leave
        pure [first]
      | .done => fail .expectedClosingParen opened
      | found => fail (.unexpectedInArguments found) t.position

def arguments (opened : Nat) (argument : m Expr) : m (List Expr) := do
  match ← peek with
  | some ⟨.closeParen, _⟩ =>
    leave
    pure []
  | _ =>
    let fuel ← remaining
    argumentsFrom opened argument (fuel + 1)

def call (name : String) (position : Nat) : List Expr → Except ParseError Expr
  | [] => .ok (.call0 name position)
  | [argument] => .ok (.call1 name argument position)
  | [first, second] => .ok (.call2 name first second position)
  | _ => .error ⟨.tooManyArguments name, position⟩

def valueOfName? (last : Value) (name : String) : Option Value :=
  match Text.foldName name with
  | "ans" => some last
  | "e" => some (.real Series.eulerNumber)
  | "pi" | "π" => some (.real Elementary.pi)
  | _ => none

def group (opened : Nat) (sum : m Expr) : m Expr := do
  let inner ← sum
  match ← peek with
  | some ⟨.closeParen, _⟩ =>
    leave
    pure inner
  | _ => fail .expectedClosingParen opened

def ofExcept {α : Type} : Except ParseError α → m α
  | .ok a => pure a
  | .error e => fail e.reason e.position

def constant (last : Value) (name : String) (position : Nat) : m Expr :=
  match valueOfName? last name with
  | some v => pure (.number v position)
  | none => fail (.unknownName name) position

def named (last : Value) (sum : m Expr) (name : String) (position : Nat) : m Expr := do
  match ← peek with
  | some ⟨.openParen, opened⟩ =>
    enter (.call opened)
    let es ← arguments opened sum
    ofExcept (call name position es)
  | _ => constant last name position

def factorOf (last : Value) (factor sum : m Expr) : m Expr := do
  match ← peek with
  | none => fail .unexpectedEnd 0
  | some t =>
    match t.symbol with
    | .minus =>
      advance
      let operand ← factor
      pure (.negation operand t.position)
    | .integer n =>
      advance
      pure (.number (.integer n) t.position)
    | .real x =>
      advance
      pure (.number (.real x) t.position)
    | .openParen =>
      enter (.group t.position)
      group t.position sum
    | .name name =>
      advance
      named last sum name t.position
    | .done => fail .unexpectedEnd t.position
    | found => fail (.unexpectedToken found) t.position

structure Routines (m : Type → Type) where
  factor : m Expr
  power : m Expr

namespace Routines

def product (r : Routines m) : m Expr := productOf r.power

def sum (r : Routines m) : m Expr := sumOf r.power

end Routines

def tooDeep : m Expr := do
  match ← peek with
  | none => fail .nestingTooDeep 0
  | some t => fail .nestingTooDeep t.position

/-- The parsers, `fuel` being the number of nestings they can be run in. -/
def routines (last : Value) : (fuel : Nat) → Routines m
  | 0 => { factor := tooDeep, power := tooDeep }
  | fuel + 1 =>
    let inner := routines last fuel
    let power := powerOf (nested inner.factor) (nested inner.power)
    { factor := factorOf last (nested inner.factor) (sumOf power), power }

/-- A formula goes up to the first end.

      sum     := product (("+" | "-") product)*
      product := power (("*" | "/") power)*
      power   := factor (("^" | "**") power)?
      factor  := "-" factor | number | "(" sum ")" | name "(" (sum ("," sum)*)? ")" | name -/
def formula (last : Value) : m Expr := do
  let e ← (routines last (maxNesting + 1)).sum
  match ← peek with
  | none => fail .unexpectedEnd 0
  | some t =>
    match t.symbol with
    | .done => pure e
    | found => fail (.trailingTokens found) t.position

end Calculator.Expr
