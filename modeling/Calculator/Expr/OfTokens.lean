import Calculator.Expr.Parsing

namespace Calculator.Expr

structure Progress where
  rest : List Token
  depth : Nat
  operators : Nat
deriving DecidableEq, Repr

namespace Progress

def past (s : Progress) : Progress := { s with rest := s.rest.drop 1 }

def counted (s : Progress) : Progress := { s with operators := s.operators + 1 }

def deeper (s : Progress) : Progress := { s with depth := s.depth + 1 }

def shallower (s : Progress) : Progress := { s with depth := s.depth - 1 }

end Progress

def firstPosition : List Token → Nat
  | [] => 0
  | t :: _ => t.position

abbrev Parser : Type → Type := StateT Progress (Except ParseError)

instance : Parsing Parser where
  fail reason position _ := .error ⟨reason, position⟩
  peek s := .ok (s.rest.head?, s)
  remaining s := .ok (s.rest.length, s)
  advance s := .ok ((), s.past)
  enter _ s := .ok ((), s.past)
  leave s := .ok ((), s.past)
  countOperator position s :=
    if s.operators < maxOperators then .ok ((), s.counted) else .error ⟨.tooManyOperators, position⟩
  nested parser s :=
    if s.depth < maxNesting then (parser s.deeper).map fun (value, t) => (value, t.shallower)
    else .error ⟨.nestingTooDeep, firstPosition s.rest⟩

namespace Parser

variable {α : Type} {s : Progress} {position : Nat}

theorem countOperator_of_room (room : s.operators < maxOperators) :
    (Parsing.countOperator position : Parser Unit) s = .ok ((), s.counted) := if_pos room

theorem countOperator_of_full (full : ¬ s.operators < maxOperators) :
    (Parsing.countOperator position : Parser Unit) s = .error ⟨.tooManyOperators, position⟩ := if_neg full

theorem nested_of_room (parser : Parser α) (room : s.depth < maxNesting) :
    Parsing.nested parser s = (parser s.deeper).map fun r => (r.1, r.2.shallower) := if_pos room

theorem nested_of_full (parser : Parser α) (full : ¬ s.depth < maxNesting) :
    Parsing.nested parser s = .error ⟨.nestingTooDeep, firstPosition s.rest⟩ := if_neg full

end Parser

/-- The formula that the tokens up to the first end make, `last` being the last answer. -/
def ofTokens (last : Value) (tokens : List Token) : Except ParseError Expr :=
  ((formula last : Parser Expr) ⟨tokens, 0, 0⟩).map Prod.fst

end Calculator.Expr
