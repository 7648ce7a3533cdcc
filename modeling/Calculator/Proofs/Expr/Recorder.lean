import Calculator.Expr.OfTokens

namespace Calculator.Expr

open Parsing

structure Stand where
  read : List Token
  rest : List Token
  opened : List Opening
  depth : Nat
  operators : Nat
deriving DecidableEq, Repr

namespace Stand

def past (s : Stand) : Stand := { s with read := s.rest.take 1 ++ s.read, rest := s.rest.drop 1 }

def opening (s : Stand) (o : Opening) : Stand := { s.past with opened := o :: s.opened }

def closing (s : Stand) : Stand := { s.past with opened := s.opened.tail }

def counted (s : Stand) : Stand := { s with operators := s.operators + 1 }

def deeper (s : Stand) : Stand := { s with depth := s.depth + 1 }

def shallower (s : Stand) : Stand := { s with depth := s.depth - 1 }

end Stand

/-- What became of a parser, where it ended, and the stands it came to on the way. -/
structure Course (α : Type) where
  outcome : Except ParseError α
  final : Stand
  passed : List Stand

def Recorder (α : Type) : Type := Stand → Course α

namespace Recorder

variable {α β : Type}

def give (a : α) : Recorder α := fun s => ⟨.ok a, s, []⟩

def andThen (m : Recorder α) (next : α → Recorder β) : Recorder β := fun s =>
  match m s with
  | ⟨.error e, final, passed⟩ => ⟨.error e, final, passed⟩
  | ⟨.ok a, middle, passed⟩ =>
    let following := next a middle
    { following with passed := passed ++ following.passed }

instance : Monad Recorder where
  pure := give
  bind := andThen

def stop (e : ParseError) : Recorder α := fun s => ⟨.error e, s, []⟩

def go (move : Stand → Stand) : Recorder Unit := fun s => ⟨.ok (), move s, [move s]⟩

/-- The counter of nestings is set back when the parser fails, too. -/
instance : Parsing Recorder where
  fail reason position := stop ⟨reason, position⟩
  peek s := ⟨.ok s.rest.head?, s, []⟩
  remaining s := ⟨.ok s.rest.length, s, []⟩
  advance := go .past
  enter o := go fun s => s.opening o
  leave := go .closing
  countOperator position s :=
    if s.operators < maxOperators then go .counted s else stop ⟨.tooManyOperators, position⟩ s
  nested parser s :=
    if s.depth < maxNesting then
      let inner := parser s.deeper
      ⟨inner.outcome, inner.final.shallower, s.deeper :: (inner.passed ++ [inner.final.shallower])⟩
    else stop ⟨.nestingTooDeep, firstPosition s.rest⟩ s

def start (tokens : List Token) : Stand := ⟨[], tokens, [], 0, 0⟩

def run (last : Value) (tokens : List Token) : Course Expr := (formula last : Recorder Expr) (start tokens)

def stands (last : Value) (tokens : List Token) : List Stand := start tokens :: (run last tokens).passed

section Equations

variable {m : Recorder α} {f : α → Recorder β} {s t : Stand} {passed : List Stand}

theorem bind_of_ok {a : α} (h : m s = ⟨.ok a, t, passed⟩) :
    (m >>= f) s = { f a t with passed := passed ++ (f a t).passed } := by
  change andThen m f s = _
  simp only [andThen, h]

theorem bind_of_error {e : ParseError} (h : m s = ⟨.error e, t, passed⟩) :
    (m >>= f) s = ⟨.error e, t, passed⟩ := by
  change andThen m f s = _
  simp only [andThen, h]

theorem countOperator_of_room {position : Nat} (room : s.operators < maxOperators) :
    (countOperator position : Recorder Unit) s = go .counted s := if_pos room

theorem countOperator_of_full {position : Nat} (full : ¬ s.operators < maxOperators) :
    (countOperator position : Recorder Unit) s = stop ⟨.tooManyOperators, position⟩ s := if_neg full

theorem nested_of_room (m : Recorder α) (room : s.depth < maxNesting) :
    nested m s = ⟨(m s.deeper).outcome, (m s.deeper).final.shallower,
      s.deeper :: ((m s.deeper).passed ++ [(m s.deeper).final.shallower])⟩ := if_pos room

theorem nested_of_full (m : Recorder α) (full : ¬ s.depth < maxNesting) :
    nested m s = stop ⟨.nestingTooDeep, firstPosition s.rest⟩ s := if_neg full

theorem peek_bind (f : Option Token → Recorder β) (s : Stand) :
    ((peek : Recorder _) >>= f) s = f s.rest.head? s := rfl

theorem remaining_bind (f : Nat → Recorder β) (s : Stand) :
    ((remaining : Recorder _) >>= f) s = f s.rest.length s := rfl

end Equations

end Recorder

end Calculator.Expr
