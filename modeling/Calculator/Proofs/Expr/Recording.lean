import Calculator.Proofs.Expr.Recorder

namespace Calculator.Expr

open Parsing

variable {α β : Type}

def Stand.progress (s : Stand) : Progress := ⟨s.rest, s.depth, s.operators⟩

def Course.result (c : Course α) : Except ParseError (α × Progress) :=
  c.outcome.map fun a => (a, c.final.progress)

namespace Recorder

def Follows (recorder : Recorder α) (parser : Parser α) : Prop := ∀ s, (recorder s).result = parser s.progress

section Operations

variable {m : Recorder α} {p : Parser α} {f : α → Recorder β} {g : α → Parser β}

theorem pure_follows (a : α) : Follows (pure a) (pure a) := fun _ => rfl

theorem fail_follows (reason : ParseError.Reason) (position : Nat) :
    Follows (fail reason position : Recorder α) (fail reason position) := fun _ => rfl

theorem peek_follows : Follows peek peek := fun _ => rfl

theorem remaining_follows : Follows remaining remaining := fun _ => rfl

theorem advance_follows : Follows advance advance := fun _ => rfl

theorem enter_follows (o : Opening) : Follows (enter o) (enter o) := fun _ => rfl

theorem leave_follows : Follows leave leave := fun _ => rfl

theorem bind_follows (first : Follows m p) (next : ∀ a, Follows (f a) (g a)) : Follows (m >>= f) (p >>= g) := by
  intro s
  have given := first s
  change _ = (p s.progress >>= fun r => g r.1 r.2)
  rw [← given]
  generalize course : m s = c
  obtain ⟨outcome, t, passed⟩ := c
  cases outcome with
  | error e =>
    rw [bind_of_error course]
    rfl
  | ok a =>
    rw [bind_of_ok course]
    exact next a t

theorem countOperator_follows (position : Nat) : Follows (countOperator position) (countOperator position) := by
  intro s
  by_cases room : s.operators < maxOperators
  · rw [countOperator_of_room room, Parser.countOperator_of_room (s := s.progress) room]
    rfl
  · rw [countOperator_of_full room, Parser.countOperator_of_full (s := s.progress) room]
    rfl

theorem nested_follows (follows : Follows m p) : Follows (nested m) (nested p) := by
  intro s
  by_cases room : s.depth < maxNesting
  · have recorded : (nested m s).result = (m s.deeper).result.map fun r => (r.1, r.2.shallower) := by
      rw [nested_of_room m room, Course.result, Course.result]
      cases (m s.deeper).outcome <;> rfl
    rw [recorded, Parser.nested_of_room (s := s.progress) p room, follows s.deeper]
    rfl
  · rw [nested_of_full m room, Parser.nested_of_full (s := s.progress) p room]
    rfl

end Operations

section Chains

variable {accepts : Operator → Bool} {operand : Recorder Expr} {parser : Parser Expr}

theorem chainFrom_follows (follows : Follows operand parser) (fuel : Nat) (left : Expr) :
    Follows (chainFrom accepts operand fuel left) (chainFrom accepts parser fuel left) := by
  induction fuel generalizing left with
  | zero => exact pure_follows left
  | succ fuel ih =>
    refine bind_follows peek_follows fun next => ?_
    cases next with
    | none => exact pure_follows left
    | some t =>
      dsimp only
      cases t.symbol.operator?.filter accepts with
      | none => exact pure_follows left
      | some op =>
        exact bind_follows (countOperator_follows _) fun _ => bind_follows advance_follows fun _ =>
          bind_follows follows fun _ => ih _

theorem chain_follows (follows : Follows operand parser) :
    Follows (chain accepts operand) (chain accepts parser) :=
  bind_follows follows fun first => bind_follows remaining_follows fun _ => chainFrom_follows follows _ first

theorem sumOf_follows (follows : Follows operand parser) : Follows (sumOf operand) (sumOf parser) :=
  chain_follows (chain_follows follows)

end Chains

theorem powerOf_follows {factor exponent : Recorder Expr} {factor' exponent' : Parser Expr}
    (factorFollows : Follows factor factor') (exponentFollows : Follows exponent exponent') :
    Follows (powerOf factor exponent) (powerOf factor' exponent') := by
  refine bind_follows factorFollows fun base => bind_follows peek_follows fun next => ?_
  cases next with
  | none => exact pure_follows base
  | some t =>
    dsimp only
    split
    · exact bind_follows (countOperator_follows _) fun _ => bind_follows advance_follows fun _ =>
        bind_follows exponentFollows fun _ => pure_follows _
    · exact pure_follows base

section Arguments

variable {argument : Recorder Expr} {argument' : Parser Expr} (follows : Follows argument argument') (opened : Nat)
include follows

theorem argumentsFrom_follows (fuel : Nat) :
    Follows (argumentsFrom opened argument fuel) (argumentsFrom opened argument' fuel) := by
  induction fuel with
  | zero => exact fail_follows _ _
  | succ fuel ih =>
    refine bind_follows follows fun first => bind_follows peek_follows fun next => ?_
    cases next with
    | none => exact fail_follows _ _
    | some t =>
      obtain ⟨symbol, p⟩ := t
      cases symbol with
      | comma => exact bind_follows advance_follows fun _ => bind_follows ih fun _ => pure_follows _
      | closeParen => exact bind_follows leave_follows fun _ => pure_follows _
      | _ => exact fail_follows _ _

theorem arguments_follows : Follows (arguments opened argument) (arguments opened argument') := by
  refine bind_follows peek_follows fun next => ?_
  have listed := bind_follows remaining_follows fun fuel => argumentsFrom_follows follows opened (fuel + 1)
  rcases next with _ | ⟨symbol, p⟩
  · exact listed
  · cases symbol with
    | closeParen => exact bind_follows leave_follows fun _ => pure_follows _
    | _ => exact listed

theorem group_follows : Follows (group opened argument) (group opened argument') := by
  refine bind_follows follows fun inner => bind_follows peek_follows fun next => ?_
  rcases next with _ | ⟨symbol, p⟩
  · exact fail_follows _ _
  · cases symbol with
    | closeParen => exact bind_follows leave_follows fun _ => pure_follows _
    | _ => exact fail_follows _ _

end Arguments

section Factors

variable {sum : Recorder Expr} {sum' : Parser Expr} {last : Value}

theorem ofExcept_follows (outcome : Except ParseError α) : Follows (ofExcept outcome) (ofExcept outcome) := by
  cases outcome with
  | ok a => exact pure_follows a
  | error e => exact fail_follows _ _

theorem constant_follows (name : String) (p : Nat) : Follows (constant last name p) (constant last name p) := by
  unfold constant
  cases valueOfName? last name with
  | some v => exact pure_follows _
  | none => exact fail_follows _ _

theorem named_follows (follows : Follows sum sum') (name : String) (p : Nat) :
    Follows (named last sum name p) (named last sum' name p) := by
  refine bind_follows peek_follows fun next => ?_
  rcases next with _ | ⟨symbol, opened⟩
  · exact constant_follows name p
  · cases symbol with
    | openParen =>
      exact bind_follows (enter_follows _) fun _ => bind_follows (arguments_follows follows opened) fun _ =>
        ofExcept_follows _
    | _ => exact constant_follows name p

theorem factorOf_follows {factor : Recorder Expr} {factor' : Parser Expr} (factorFollows : Follows factor factor')
    (sumFollows : Follows sum sum') : Follows (factorOf last factor sum) (factorOf last factor' sum') := by
  refine bind_follows peek_follows fun next => ?_
  rcases next with _ | ⟨symbol, p⟩
  · exact fail_follows _ _
  · cases symbol with
    | minus => exact bind_follows advance_follows fun _ => bind_follows factorFollows fun _ => pure_follows _
    | integer n | real x => exact bind_follows advance_follows fun _ => pure_follows _
    | openParen => exact bind_follows (enter_follows _) fun _ => group_follows sumFollows p
    | name name => exact bind_follows advance_follows fun _ => named_follows sumFollows name p
    | _ => exact fail_follows _ _

end Factors

theorem tooDeep_follows : Follows tooDeep tooDeep := by
  refine bind_follows peek_follows fun next => ?_
  rcases next with _ | t
  · exact fail_follows _ _
  · exact fail_follows _ _

theorem routines_follow (last : Value) (fuel : Nat) :
    Follows (routines last fuel).factor (routines last fuel).factor ∧
      Follows (routines last fuel).power (routines last fuel).power := by
  induction fuel with
  | zero => exact ⟨tooDeep_follows, tooDeep_follows⟩
  | succ fuel ih =>
    have power := powerOf_follows (nested_follows ih.1) (nested_follows ih.2)
    exact ⟨factorOf_follows (nested_follows ih.1) (sumOf_follows power), power⟩

theorem formula_follows (last : Value) : Follows (formula last) (formula last) := by
  refine bind_follows (sumOf_follows (routines_follow last _).2) fun e => bind_follows peek_follows fun next => ?_
  rcases next with _ | ⟨symbol, p⟩
  · exact fail_follows _ _
  · cases symbol with
    | done => exact pure_follows e
    | _ => exact fail_follows _ _

theorem run_outcome (last : Value) (tokens : List Token) : (run last tokens).outcome = ofTokens last tokens := by
  have same := formula_follows last (start tokens)
  unfold ofTokens
  change _ = ((formula last : Parser Expr) (start tokens).progress).map Prod.fst
  rw [← same, run]
  generalize (formula last : Recorder Expr) (start tokens) = course
  obtain ⟨outcome, final, passed⟩ := course
  cases outcome <;> rfl

end Recorder

end Calculator.Expr
