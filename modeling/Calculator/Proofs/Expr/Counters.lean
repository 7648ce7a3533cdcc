import Calculator.Proofs.Expr.Grammar
import Calculator.Proofs.Expr.Outcome
import Calculator.Proofs.Expr.Recording

namespace Calculator.Expr

open Parsing

def operatorCounts : List Expr → Nat
  | [] => 0
  | e :: es => e.operatorCount + operatorCounts es

/-- A parser that succeeds is as deep as it was, and has counted the operators of what it made and no more than are
    allowed. -/
structure Counted {α : Type} (count : α → Nat) (s : Progress) (a : α) (t : Progress) : Prop where
  depth : t.depth = s.depth
  operators : t.operators = s.operators + count a
  limited : s.operators ≤ maxOperators → t.operators ≤ maxOperators

def Counts {α : Type} (count : α → Nat) (p : Parser α) : Prop := ∀ s a t, Gives p s a t → Counted count s a t

variable {α : Type} {count : α → Nat} {s t : Progress}

theorem fail_counts (reason : ParseError.Reason) (position : Nat) : Counts count (fail reason position) :=
  fun _ _ _ given => absurd given not_gives_fail

theorem nested_counts {p : Parser α} (counts : Counts count p) : Counts count (nested p) := by
  intro s a t given
  obtain ⟨-, u, inner, rfl⟩ := gives_nested_iff.mp given
  obtain ⟨depth, operators, limited⟩ := counts _ _ _ inner
  exact ⟨Nat.sub_eq_of_eq_add depth, operators, limited⟩

section Chains

variable {accepts : Operator → Bool} {operand : Parser Expr}

theorem refused_or_accepted (accepts : Operator → Bool) (tokens : List Token) :
    (∀ n ∈ tokens.head?, n.symbol.operator?.filter accepts = none) ∨
      ∃ next tail op, tokens = next :: tail ∧ next.symbol.operator?.filter accepts = some op := by
  cases tokens with
  | nil => exact .inl nofun
  | cons next tail =>
    cases accepted : next.symbol.operator?.filter accepts with
    | none => exact .inl (by simpa using accepted)
    | some op => exact .inr ⟨next, tail, op, rfl, accepted⟩

/-- The operators of the left operand have been counted before. -/
theorem chainFrom_counts (counts : Counts operatorCount operand) {fuel : Nat} {left e : Expr}
    (given : Gives (chainFrom accepts operand fuel left) s e t) :
    t.depth = s.depth ∧ t.operators + left.operatorCount = s.operators + e.operatorCount ∧
      (s.operators ≤ maxOperators → t.operators ≤ maxOperators) := by
  induction fuel generalizing left s with
  | zero =>
    obtain ⟨rfl, rfl⟩ := gives_pure_iff.mp given
    exact ⟨rfl, rfl, id⟩
  | succ fuel ih =>
    rcases refused_or_accepted accepts s.rest with refused | ⟨next, tail, op, following, accepted⟩
    · obtain ⟨rfl, rfl⟩ := (gives_chainFrom_of_refused refused).mp given
      exact ⟨rfl, rfl, id⟩
    · obtain ⟨room, right, u, reads, onward⟩ := (gives_chainFrom_of_accepted following accepted).mp given
      obtain ⟨depth, operators, limited⟩ := counts _ _ _ reads
      obtain ⟨depth', operators', limited'⟩ := ih onward
      simp only [operatorCount, Progress.counted, Progress.past] at operators operators' limited
      exact ⟨depth'.trans depth, by omega, fun _ => limited' (limited room)⟩

theorem chain_counts (counts : Counts operatorCount operand) : Counts operatorCount (chain accepts operand) := by
  intro s e t given
  obtain ⟨first, u, reads, onward⟩ := gives_chain_iff.mp given
  obtain ⟨depth, operators, limited⟩ := counts _ _ _ reads
  obtain ⟨depth', operators', limited'⟩ := chainFrom_counts counts onward
  exact ⟨depth'.trans depth, by omega, fun below => limited' (limited below)⟩

theorem sumOf_counts (counts : Counts operatorCount operand) : Counts operatorCount (sumOf operand) :=
  chain_counts (chain_counts counts)

end Chains

theorem powerOf_counts {factor exponent : Parser Expr} (factorCounts : Counts operatorCount factor)
    (exponentCounts : Counts operatorCount exponent) : Counts operatorCount (powerOf factor exponent) := by
  intro s e t given
  obtain ⟨base, u, reads, ⟨-, rfl, rfl⟩ | ⟨next, tail, -, -, room, right, reads', rfl⟩⟩ := gives_powerOf_iff.mp given
  · exact factorCounts _ _ _ reads
  · obtain ⟨depth, operators, -⟩ := factorCounts _ _ _ reads
    obtain ⟨depth', operators', limited'⟩ := exponentCounts _ _ _ reads'
    simp only [Progress.counted, Progress.past] at operators' limited'
    refine ⟨depth'.trans depth, ?_, fun _ => limited' room⟩
    simp only [operatorCount]
    omega

section Parentheses

variable {last : Value} {sum : Parser Expr}

theorem group_counts (p : Nat) (counts : Counts operatorCount sum) : Counts operatorCount (group p sum) := by
  intro s e t given
  obtain ⟨u, q, tail, reads, -, rfl⟩ := gives_group_iff.mp given
  obtain ⟨depth, operators, limited⟩ := counts _ _ _ reads
  exact ⟨depth, operators, limited⟩

theorem argumentsFrom_counts (p fuel : Nat) (counts : Counts operatorCount sum) :
    Counts operatorCounts (argumentsFrom p sum fuel) := by
  induction fuel with
  | zero => exact fail_counts _ _
  | succ fuel ih =>
    intro s es t given
    obtain ⟨first, u, next, tail, reads, -, ⟨others, -, following, rfl⟩ | ⟨-, rfl, rfl⟩⟩ :=
      gives_argumentsFrom_iff.mp given
    all_goals obtain ⟨depth, operators, limited⟩ := counts _ _ _ reads
    · obtain ⟨depth', operators', limited'⟩ := ih _ _ _ following
      simp only [Progress.past] at operators' limited'
      refine ⟨depth'.trans depth, ?_, fun below => limited' (limited below)⟩
      simp only [operatorCounts]
      omega
    · exact ⟨depth, operators, limited⟩

theorem arguments_counts (p : Nat) (counts : Counts operatorCount sum) : Counts operatorCounts (arguments p sum) := by
  intro s es t given
  rcases gives_arguments_iff.mp given with ⟨q, tail, -, rfl, rfl⟩ | ⟨-, listed⟩
  · exact ⟨rfl, rfl, id⟩
  · exact argumentsFrom_counts p _ counts _ _ _ listed

theorem operatorCount_call {name : String} {p : Nat} {es : List Expr} {e : Expr}
    (called : call name p es = .ok e) : e.operatorCount = operatorCounts es := by
  unfold call at called
  split at called <;> cases called <;> simp [operatorCounts, operatorCount]

theorem named_counts (name : String) (p : Nat) (counts : Counts operatorCount sum) :
    Counts operatorCount (named last sum name p) := by
  intro s e t given
  rcases gives_named_iff.mp given with ⟨q, tail, es, -, reads, called⟩ | ⟨-, v, -, rfl, rfl⟩
  · obtain ⟨depth, operators, limited⟩ := arguments_counts q counts _ _ _ reads
    exact ⟨depth, by rw [operatorCount_call called]; exact operators, limited⟩
  · exact ⟨rfl, rfl, id⟩

theorem factorOf_counts {factor : Parser Expr} (factorCounts : Counts operatorCount factor)
    (sumCounts : Counts operatorCount sum) : Counts operatorCount (factorOf last factor sum) := by
  rintro ⟨rest, depth, operators⟩ e t given
  rcases rest with _ | ⟨⟨symbol, p⟩, tail⟩
  · exact absurd given (not_gives_fail (s := ⟨[], depth, operators⟩))
  cases symbol with
  | minus =>
    obtain ⟨operand, reads, rfl⟩ := gives_factorOf_minus_iff.mp given
    obtain ⟨level, counted, limited⟩ := factorCounts _ _ _ reads
    exact ⟨level, counted, limited⟩
  | integer n | real x =>
    obtain ⟨rfl, rfl⟩ := gives_advance_pure_iff.mp given
    exact ⟨rfl, rfl, id⟩
  | openParen =>
    obtain ⟨level, counted, limited⟩ := group_counts p sumCounts _ _ _ (gives_factorOf_openParen_iff.mp given)
    exact ⟨level, counted, limited⟩
  | name name =>
    obtain ⟨level, counted, limited⟩ := named_counts name p sumCounts _ _ _ (gives_factorOf_name_iff.mp given)
    exact ⟨level, counted, limited⟩
  | _ => exact absurd given (not_gives_fail (s := ⟨tail, depth, operators⟩))

end Parentheses

theorem tooDeep_counts : Counts operatorCount tooDeep := by
  rintro ⟨_ | ⟨t, rest⟩, depth, operators⟩ e u given
  · exact absurd given (not_gives_fail (s := ⟨[], depth, operators⟩))
  · exact absurd given (not_gives_fail (s := ⟨t :: rest, depth, operators⟩))

theorem routines_count (last : Value) (fuel : Nat) :
    Counts operatorCount (routines last fuel).factor ∧ Counts operatorCount (routines last fuel).power := by
  induction fuel with
  | zero => exact ⟨tooDeep_counts, tooDeep_counts⟩
  | succ fuel ih =>
    have factor := nested_counts ih.1
    have power := powerOf_counts factor (nested_counts ih.2)
    exact ⟨factorOf_counts factor (sumOf_counts power), power⟩

namespace Recorder

def Returns {α : Type} (m : Recorder α) (s : Stand) (a : α) (t : Stand) : Prop :=
  ∃ passed, m s = ⟨.ok a, t, passed⟩

def Keeps {α : Type} (count : α → Nat) (m : Recorder α) : Prop :=
  ∀ s a t, Returns m s a t → t.depth = s.depth ∧ t.operators = s.operators + count a

theorem Follows.keeps {m : Recorder α} {p : Parser α} (follows : Follows m p) (counts : Counts count p) :
    Keeps count m := by
  rintro s a t ⟨passed, course⟩
  have given := follows s
  rw [course] at given
  obtain ⟨depth, operators, -⟩ := counts s.progress a t.progress given.symm
  exact ⟨depth, operators⟩

end Recorder

end Calculator.Expr
