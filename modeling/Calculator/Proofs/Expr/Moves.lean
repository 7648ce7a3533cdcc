import Calculator.Proofs.Expr.Recorder
import Mathlib.Logic.Relation

namespace Calculator.Expr

open Parsing

def behindName : List Token → Bool
  | ⟨.name _, _⟩ :: _ => true
  | _ => false

def isPlain (t : Token) : Bool :=
  match t.symbol with
  | .openParen | .closeParen | .done => false
  | _ => true

/-- The parentheses that are open behind tokens, the last one first. Behind a name a parenthesis opens the
    arguments of a call. -/
def unmatched : List Token → List Opening
  | [] => []
  | t :: before =>
    match t.symbol with
    | .openParen => (if behindName before then .call t.position else .group t.position) :: unmatched before
    | .closeParen => (unmatched before).tail
    | _ => unmatched before

namespace Recorder

inductive Move : Stand → Stand → Prop
  | token {s t rest} (next : s.rest = t :: rest) (plain : isPlain t = true) : Move s s.past
  | group {s p rest} (next : s.rest = ⟨.openParen, p⟩ :: rest) (unnamed : behindName s.read = false) :
      Move s (s.opening (.group p))
  | call {s p rest} (next : s.rest = ⟨.openParen, p⟩ :: rest) (called : behindName s.read = true) :
      Move s (s.opening (.call p))
  | close {s p rest} (next : s.rest = ⟨.closeParen, p⟩ :: rest) : Move s s.closing
  | count {s} (room : s.operators < maxOperators) : Move s s.counted
  | deeper {s} (room : s.depth < maxNesting) : Move s s.deeper
  | shallower {s} : Move s s.shallower

abbrev Reaches : Stand → Stand → Prop := Relation.ReflTransGen Move

/-- The tokens read and those left are the tokens of the formula, no end has been read, and the open
    parentheses are those without a partner among the tokens read. -/
structure Placed (tokens : List Token) (s : Stand) : Prop where
  split : tokens = s.read.reverse ++ s.rest
  before_end : ∀ t ∈ s.read, t.symbol ≠ .done
  opened : s.opened = unmatched s.read

structure Limited (s : Stand) : Prop where
  depth : s.depth ≤ maxNesting
  operators : s.operators ≤ maxOperators

theorem Move.limited {s t : Stand} (move : Move s t) (limited : Limited s) : Limited t := by
  obtain ⟨deep, many⟩ := limited
  cases move with
  | token | group | call | close => exact ⟨deep, many⟩
  | count room => exact ⟨deep, room⟩
  | deeper room => exact ⟨room, many⟩
  | shallower => exact ⟨Nat.le_trans (Nat.sub_le _ _) deep, many⟩

theorem unmatched_plain {t : Token} {before : List Token} (plain : isPlain t = true) :
    unmatched (t :: before) = unmatched before := by
  obtain ⟨symbol, p⟩ := t
  cases symbol <;> first | rfl | cases plain

theorem Move.placed {tokens : List Token} {s t : Stand} (move : Move s t) (placed : Placed tokens s) :
    Placed tokens t := by
  obtain ⟨read, rest, opened, depth, operators⟩ := s
  obtain ⟨split, before, stack⟩ := placed
  dsimp only at split before stack
  -- Reading a token puts it before the tokens read.
  have reads {t : Token} {tail : List Token} (next : rest = t :: tail) (unended : t.symbol ≠ .done) :
      tokens = (t :: read).reverse ++ tail ∧ ∀ u ∈ t :: read, u.symbol ≠ .done := by
    refine ⟨by rw [split, next, List.reverse_cons, List.append_assoc, List.singleton_append], ?_⟩
    intro u member
    rcases List.mem_cons.mp member with rfl | member
    · exact unended
    · exact before u member
  cases move with
  | @token t tail next plain =>
    dsimp only at next
    subst next
    obtain ⟨split', before'⟩ := reads rfl (by intro ended; simp [isPlain, ended] at plain)
    exact ⟨split', before', stack.trans (unmatched_plain plain).symm⟩
  | group next unnamed =>
    dsimp only at next unnamed
    subst next
    obtain ⟨split', before'⟩ := reads rfl nofun
    refine ⟨split', before', ?_⟩
    change _ :: opened = (if behindName read then _ else _) :: unmatched read
    rw [stack, unnamed]
    rfl
  | call next called =>
    dsimp only at next called
    subst next
    obtain ⟨split', before'⟩ := reads rfl nofun
    refine ⟨split', before', ?_⟩
    change _ :: opened = (if behindName read then _ else _) :: unmatched read
    rw [stack, called]
    rfl
  | close next =>
    dsimp only at next
    subst next
    obtain ⟨split', before'⟩ := reads rfl nofun
    exact ⟨split', before', congrArg List.tail stack⟩
  | count | deeper | shallower => exact ⟨split, before, stack⟩

theorem Reaches.limited {s t : Stand} (reaches : Reaches s t) (limited : Limited s) : Limited t := by
  induction reaches with
  | refl => exact limited
  | tail _ move ih => exact move.limited ih

theorem Reaches.placed {tokens : List Token} {s t : Stand} (reaches : Reaches s t)
    (placed : Placed tokens s) : Placed tokens t := by
  induction reaches with
  | refl => exact placed
  | tail _ move ih => exact move.placed ih

/-- Where a parser stops for want of a closing parenthesis: in a group before a token that does not close
    it, or among arguments with no token left. -/
inductive Unclosed (position : Nat) (s : Stand) : Prop
  | group {outer} (opened : s.opened = .group position :: outer)
      (next : ∀ t ∈ s.rest.head?, t.symbol ≠ .closeParen)
  | call {outer} (opened : s.opened = .call position :: outer)
      (next : ∀ t ∈ s.rest.head?, t.symbol = .done)

/-- A course from a stand moves step by step. If it succeeds, it ends in a stand as described, and if it
    stops for want of a closing parenthesis, it does so in the parenthesis that the error names. -/
structure Meets {α : Type} (s : Stand) (post : Stand → Prop) (c : Course α) : Prop where
  along : ∀ u ∈ c.passed, Reaches s u
  reached : Reaches s c.final
  holds : ∀ a, c.outcome = .ok a → post c.final
  stopped : ∀ p, c.outcome = .error ⟨.expectedClosingParen, p⟩ → Unclosed p c.final

/-- Run behind anything but a name, a parser that succeeds has closed what it opened. -/
def Balanced {α : Type} (m : Recorder α) : Prop :=
  ∀ s : Stand, behindName s.read = false → Meets s (fun t => t.opened = s.opened) (m s)

variable {α β : Type} {s : Stand} {post post' : Stand → Prop}

theorem Meets.give {a : α} (holds : post s) : Meets s post ((pure a : Recorder α) s) :=
  ⟨nofun, .refl, fun _ _ => holds, nofun⟩

theorem Meets.fail {reason : ParseError.Reason} {position : Nat}
    (stopped : reason = .expectedClosingParen → Unclosed position s) :
    Meets s post ((fail reason position : Recorder α) s) :=
  ⟨nofun, .refl, nofun, fun _ fails => by cases fails; exact stopped rfl⟩

theorem Meets.bind {m : Recorder α} {f : α → Recorder β} (first : Meets s post (m s))
    (next : ∀ a t, post t → Meets t post' (f a t)) : Meets s post' ((m >>= f) s) := by
  generalize course : m s = c at first
  obtain ⟨outcome, t, passed⟩ := c
  obtain ⟨along, reached, holds, stopped⟩ := first
  cases outcome with
  | ok a =>
    obtain ⟨along', reached', holds', stopped'⟩ := next a t (holds a rfl)
    rw [bind_of_ok course]
    refine ⟨fun u member => ?_, reached.trans reached', holds', stopped'⟩
    rcases List.mem_append.mp member with member | member
    · exact along u member
    · exact reached.trans (along' u member)
  | error e =>
    rw [bind_of_error course]
    exact ⟨along, reached, nofun, fun p fails => stopped p (by cases fails; rfl)⟩

theorem Meets.go {move : Stand → Stand} {f : Unit → Recorder β} (moves : Move s (move s))
    (next : Meets (move s) post (f () (move s))) : Meets s post ((Recorder.go move >>= f) s) := by
  have reached : Reaches s (move s) := .single moves
  have first : Meets s (fun t => t = move s) (Recorder.go move s) :=
    ⟨fun u member => by rwa [List.mem_singleton.mp member], reached, fun _ _ => rfl, nofun⟩
  refine first.bind ?_
  rintro ⟨⟩ t rfl
  exact next

theorem Meets.count {position : Nat} {f : Unit → Recorder β} (next : Meets s.counted post (f () s.counted)) :
    Meets s post ((countOperator position >>= f) s) := by
  by_cases room : s.operators < maxOperators
  · have same : (countOperator position >>= f) s = (Recorder.go .counted >>= f) s := by
      rw [bind_of_ok (countOperator_of_room room), bind_of_ok rfl]
    rw [same]
    exact .go (.count room) next
  · rw [bind_of_error (countOperator_of_full room)]
    exact .fail nofun

theorem nested_balanced {m : Recorder α} (balanced : Balanced m) : Balanced (nested m) := by
  intro s unnamed
  by_cases room : s.depth < maxNesting
  · rw [nested_of_room m room]
    obtain ⟨along, reached, holds, stopped⟩ := balanced s.deeper unnamed
    have down : Reaches s s.deeper := .single (.deeper room)
    have back : Reaches s (m s.deeper).final.shallower := (down.trans reached).tail .shallower
    refine ⟨fun u member => ?_, back, fun a succeeds => holds a succeeds, fun p fails => ?_⟩
    · rcases List.mem_cons.mp member with rfl | member
      · exact down
      · rcases List.mem_append.mp member with member | member
        · exact down.trans (along u member)
        · rwa [List.mem_singleton.mp member]
    · cases stopped p fails with
      | group opened next => exact .group opened next
      | call opened next => exact .call opened next
  · rw [nested_of_full m room]
    exact .fail nofun

section Chains

variable {accepts : Operator → Bool} {operand : Recorder Expr}

theorem operator_token {t : Token} {op : Operator} (joins : t.symbol.operator? = some op)
    (before : List Token) : isPlain t = true ∧ behindName (t :: before) = false := by
  obtain ⟨symbol, p⟩ := t
  cases symbol <;> first | exact ⟨rfl, rfl⟩ | cases joins

theorem chainFrom_meets (balanced : Balanced operand) (fuel : Nat) (left : Expr) (s : Stand) :
    Meets s (fun t => t.opened = s.opened) (chainFrom accepts operand fuel left s) := by
  induction fuel generalizing left s with
  | zero => exact .give rfl
  | succ fuel ih =>
    obtain ⟨read, rest, opened, depth, operators⟩ := s
    rw [chainFrom, peek_bind]
    cases rest with
    | nil => exact .give rfl
    | cons t rest =>
      simp only [List.head?_cons]
      cases accepted : t.symbol.operator?.filter accepts with
      | none => exact .give rfl
      | some op =>
        obtain ⟨plain, unnamed⟩ := operator_token (Option.eq_some_of_filter_eq_some accepted) read
        refine .count (.go (.token rfl plain) ?_)
        have operandMeets := balanced ⟨t :: read, rest, opened, depth, operators + 1⟩ unnamed
        refine operandMeets.bind ?_
        intro right u same
        rw [← show u.opened = opened from same]
        exact ih _ u

theorem chain_balanced (balanced : Balanced operand) : Balanced (chain accepts operand) := by
  intro s unnamed
  refine (balanced s unnamed).bind ?_
  intro first t same
  rw [remaining_bind, ← same]
  exact chainFrom_meets balanced _ first t

theorem sumOf_balanced (balanced : Balanced operand) : Balanced (sumOf operand) :=
  chain_balanced (chain_balanced balanced)

end Chains

theorem powerOf_balanced {factor exponent : Recorder Expr} (factorBalanced : Balanced factor)
    (exponentBalanced : Balanced exponent) : Balanced (powerOf factor exponent) := by
  intro s unnamed
  refine (factorBalanced s unnamed).bind ?_
  intro base t same
  rw [peek_bind, ← same]
  obtain ⟨read, rest, opened, depth, operators⟩ := t
  cases rest with
  | nil => exact .give rfl
  | cons t rest =>
    simp only [List.head?_cons]
    by_cases isPower : t.symbol.operator? = some .pow
    · obtain ⟨plain, unnamed⟩ := operator_token isPower read
      rw [if_pos isPower]
      refine .count (.go (.token rfl plain) ?_)
      have exponentMeets := exponentBalanced ⟨t :: read, rest, opened, depth, operators + 1⟩ unnamed
      refine exponentMeets.bind ?_
      intro right u same
      exact .give same
    · rw [if_neg isPower]
      exact .give rfl

section Parentheses

variable {last : Value} {sum : Recorder Expr} {p : Nat} {outer : List Opening}

theorem group_meets (balanced : Balanced sum) (unnamed : behindName s.read = false)
    (opened : s.opened = .group p :: outer) : Meets s (fun t => t.opened = outer) (group p sum s) := by
  refine (balanced s unnamed).bind ?_
  intro inner t same
  rw [peek_bind]
  obtain ⟨read, rest, stack, depth, operators⟩ := t
  have inGroup : stack = .group p :: outer := same.trans opened
  cases rest with
  | nil => exact .fail fun _ => .group inGroup nofun
  | cons t rest =>
    obtain ⟨symbol, q⟩ := t
    cases symbol with
    | closeParen => exact .go (.close rfl) (.give (congrArg List.tail inGroup))
    | _ => exact .fail fun _ => .group inGroup (by simp)

theorem argumentsFrom_meets (balanced : Balanced sum) (fuel : Nat) (unnamed : behindName s.read = false)
    (opened : s.opened = .call p :: outer) :
    Meets s (fun t => t.opened = outer) (argumentsFrom p sum fuel s) := by
  induction fuel generalizing s with
  | zero => exact .fail nofun
  | succ fuel ih =>
    refine (balanced s unnamed).bind ?_
    intro first t same
    rw [peek_bind]
    obtain ⟨read, rest, stack, depth, operators⟩ := t
    have inCall : stack = .call p :: outer := same.trans opened
    cases rest with
    | nil => exact .fail fun _ => .call inCall nofun
    | cons t rest =>
      obtain ⟨symbol, q⟩ := t
      cases symbol with
      | comma =>
        have others := ih (s := ⟨⟨.comma, q⟩ :: read, rest, stack, depth, operators⟩) rfl inCall
        refine .go (.token rfl rfl) (others.bind ?_)
        intro others u closed
        exact .give closed
      | closeParen => exact .go (.close rfl) (.give (congrArg List.tail inCall))
      | done => exact .fail fun _ => .call inCall (by simp)
      | _ => exact .fail nofun

theorem arguments_meets (balanced : Balanced sum) (unnamed : behindName s.read = false)
    (opened : s.opened = .call p :: outer) :
    Meets s (fun t => t.opened = outer) (arguments p sum s) := by
  rw [arguments, peek_bind]
  have listed := argumentsFrom_meets balanced (s.rest.length + 1) unnamed opened
  obtain ⟨read, rest, stack, depth, operators⟩ := s
  cases rest with
  | nil => exact listed
  | cons t rest =>
    obtain ⟨symbol, q⟩ := t
    cases symbol with
    | closeParen => exact .go (.close rfl) (.give (congrArg List.tail opened))
    | _ => exact listed

theorem call_meets {name : String} {es : List Expr} (holds : post s) :
    Meets s post ((ofExcept (call name p es) : Recorder Expr) s) := by
  unfold call
  split
  · exact .give holds
  · exact .give holds
  · exact .give holds
  · exact .fail nofun

theorem constant_meets {name : String} :
    Meets s (fun t => t.opened = s.opened) ((constant last name p : Recorder Expr) s) := by
  unfold constant
  cases valueOfName? last name with
  | some v => exact .give rfl
  | none => exact .fail nofun

theorem named_meets {name : String} (balanced : Balanced sum) (called : behindName s.read = true) :
    Meets s (fun t => t.opened = s.opened) (named last sum name p s) := by
  obtain ⟨read, rest, stack, depth, operators⟩ := s
  rw [named, peek_bind]
  cases rest with
  | nil => exact constant_meets
  | cons t rest =>
    obtain ⟨symbol, opened⟩ := t
    cases symbol with
    | openParen =>
      have inside : Meets _ (fun t => t.opened = stack) (arguments opened sum
          ⟨⟨.openParen, opened⟩ :: read, rest, .call opened :: stack, depth, operators⟩) :=
        arguments_meets balanced rfl rfl
      refine .go (.call rfl called) (inside.bind ?_)
      intro es t closed
      exact call_meets closed
    | _ => exact constant_meets

theorem factorOf_balanced {factor : Recorder Expr} (factorBalanced : Balanced factor)
    (sumBalanced : Balanced sum) : Balanced (factorOf last factor sum) := by
  intro s unnamed
  rw [factorOf, peek_bind]
  obtain ⟨read, rest, opened, depth, operators⟩ := s
  cases rest with
  | nil => exact .fail nofun
  | cons t rest =>
    obtain ⟨symbol, p⟩ := t
    cases symbol with
    | minus =>
      have operandMeets := factorBalanced ⟨⟨.minus, p⟩ :: read, rest, opened, depth, operators⟩ rfl
      refine .go (.token rfl rfl) (operandMeets.bind ?_)
      intro operand t same
      exact .give same
    | integer n => exact .go (.token rfl rfl) (.give rfl)
    | real x => exact .go (.token rfl rfl) (.give rfl)
    | openParen =>
      have inside : Meets _ (fun t => t.opened = opened) (group p sum
          ⟨⟨.openParen, p⟩ :: read, rest, .group p :: opened, depth, operators⟩) :=
        group_meets sumBalanced rfl rfl
      exact .go (.group rfl unnamed) inside
    | name name =>
      exact .go (.token rfl rfl) (named_meets
        (s := ⟨⟨.name name, p⟩ :: read, rest, opened, depth, operators⟩) sumBalanced rfl)
    | _ => exact .fail nofun

end Parentheses

theorem tooDeep_balanced : Balanced tooDeep := by
  rintro ⟨read, _ | ⟨t, rest⟩, opened, depth, operators⟩ unnamed
  · exact .fail nofun
  · exact .fail nofun

theorem routines_balanced (last : Value) (fuel : Nat) :
    Balanced (routines last fuel).factor ∧ Balanced (routines last fuel).power := by
  induction fuel with
  | zero => exact ⟨tooDeep_balanced, tooDeep_balanced⟩
  | succ fuel ih =>
    have factor := nested_balanced ih.1
    have power := powerOf_balanced factor (nested_balanced ih.2)
    exact ⟨factorOf_balanced factor (sumOf_balanced power), power⟩

theorem run_meets (last : Value) (tokens : List Token) :
    Meets (start tokens) (fun _ => True) (run last tokens) := by
  have sum := sumOf_balanced (routines_balanced last (maxNesting + 1)).2 (start tokens) rfl
  refine sum.bind ?_
  intro e t _
  rw [peek_bind]
  obtain ⟨read, rest, opened, depth, operators⟩ := t
  cases rest with
  | nil => exact .fail nofun
  | cons t rest =>
    obtain ⟨symbol, p⟩ := t
    cases symbol with
    | done => exact .give trivial
    | _ => exact .fail nofun

theorem reaches_of_mem_stands {last : Value} {tokens : List Token} {s : Stand}
    (member : s ∈ stands last tokens) : Reaches (start tokens) s := by
  rcases List.mem_cons.mp member with rfl | member
  · exact .refl
  · exact (run_meets last tokens).along s member

theorem placed_start (tokens : List Token) : Placed tokens (start tokens) := ⟨rfl, nofun, rfl⟩

theorem limited_start (tokens : List Token) : Limited (start tokens) := ⟨Nat.zero_le _, Nat.zero_le _⟩

end Recorder

end Calculator.Expr
