import Calculator.Expr.Eval
import Calculator.Proofs.Expr.Counters
import Calculator.Proofs.Expr.Moves
import Calculator.Proofs.Expr.Recognition
import Calculator.Proofs.Expr.Recording
import Mathlib.Logic.Function.Iterate

namespace Calculator.Expr

open Parsing
open Recorder (Keeps)

/-- `Descends e f nodes nestings`: a path of so many nodes leads from the root of `e` down to `f`. The
    minus signs and calls passed through and the exponents entered on it are its nestings. -/
inductive Descends : Expr → Expr → Nat → Nat → Prop
  | here {e} : Descends e e 1 0
  | left {op l r p f nodes nestings} (below : Descends l f nodes nestings) :
      Descends (.binary op l r p) f (nodes + 1) nestings
  | right {op l r p f nodes nestings} (other : op ≠ .pow) (below : Descends r f nodes nestings) :
      Descends (.binary op l r p) f (nodes + 1) nestings
  | exponent {l r p f nodes nestings} (below : Descends r f nodes nestings) :
      Descends (.binary .pow l r p) f (nodes + 1) (nestings + 1)
  | operand {e p f nodes nestings} (below : Descends e f nodes nestings) :
      Descends (.negation e p) f (nodes + 1) (nestings + 1)
  | argument {name e p f nodes nestings} (below : Descends e f nodes nestings) :
      Descends (.call1 name e p) f (nodes + 1) (nestings + 1)
  | first {name e e' p f nodes nestings} (below : Descends e f nodes nestings) :
      Descends (.call2 name e e' p) f (nodes + 1) (nestings + 1)
  | second {name e e' p f nodes nestings} (below : Descends e' f nodes nestings) :
      Descends (.call2 name e e' p) f (nodes + 1) (nestings + 1)

def nestings : Expr → Nat
  | .number _ _ => 0
  | .binary .pow base exponent _ => max base.nestings (exponent.nestings + 1)
  | .binary _ left right _ => max left.nestings right.nestings
  | .negation e _ => e.nestings + 1
  | .call0 _ _ => 0
  | .call1 _ e _ => e.nestings + 1
  | .call2 _ e f _ => max e.nestings f.nestings + 1

def height : Expr → Nat
  | .number _ _ => 1
  | .binary _ left right _ => max left.height right.height + 1
  | .negation e _ => e.height + 1
  | .call0 _ _ => 1
  | .call1 _ e _ => e.height + 1
  | .call2 _ e f _ => max e.height f.height + 1

theorem nestings_le_binary (op : Operator) (left right : Expr) (p : Nat) :
    max left.nestings right.nestings ≤ (Expr.binary op left right p).nestings := by
  cases op <;> simp only [nestings] <;> omega

theorem Descends.nestings_le {e f : Expr} {nodes n : Nat} (path : Descends e f nodes n) :
    n ≤ e.nestings := by
  induction path with
  | here => exact Nat.zero_le _
  | @left op l r p _ _ _ _ ih | @right op l r p _ _ _ _ _ ih =>
    have within := nestings_le_binary op l r p
    omega
  | exponent _ ih | operand _ ih | argument _ ih | first _ ih | second _ ih =>
    simp only [nestings]
    omega

theorem Descends.nodes_le {e f : Expr} {nodes n : Nat} (path : Descends e f nodes n) :
    nodes ≤ e.height := by
  induction path with
  | @here e => cases e <;> simp only [height] <;> omega
  | left _ ih | right _ _ ih | exponent _ ih | operand _ ih | argument _ ih | first _ ih | second _ ih =>
    simp only [height]
    omega

theorem height_le (e : Expr) : e.height ≤ e.nestings + e.operatorCount + 1 := by
  induction e with
  | number | call0 => simp only [height]; omega
  | binary op left right p ihLeft ihRight =>
    have within := nestings_le_binary op left right p
    simp only [height, operatorCount]
    omega
  | negation e p ih | call1 name e p ih =>
    simp only [height, nestings, operatorCount]
    omega
  | call2 name e f p ihFirst ihSecond =>
    simp only [height, nestings, operatorCount]
    omega

theorem Derives.nestings_le {last : Value} {rank : Rank} {word : List Token} {e : Expr} {n : Nat}
    (h : Derives last rank word e n) : e.nestings ≤ n := by
  induction h with
  | ofProduct _ ih | ofPower _ ih | ofFactor _ ih => exact ih
  | sum _ joins _ ih ih' | product _ joins _ ih ih' =>
    cases joins <;> simp only [nestings] <;> omega
  | power _ joins _ ih ih' => cases joins <;> simp only [nestings] <;> omega
  | group _ ih => omega
  | negation _ ih | call1 _ ih | call2 _ _ ih ih' =>
    simp only [nestings]
    omega
  | _ => simp only [nestings]; omega

def operands : Expr → List Expr
  | .number _ _ => []
  | .binary _ left right _ => [left, right]
  | .negation e _ => [e]
  | .call0 _ _ => []
  | .call1 _ e _ => [e]
  | .call2 _ e f _ => [e, f]

theorem height_pos (e : Expr) : 0 < e.height := by
  cases e <;> simp only [height] <;> omega

theorem height_lt_of_mem_operands {e f : Expr} (below : f ∈ e.operands) : f.height < e.height := by
  cases e with
  | number | call0 => cases below
  | binary op left right p | call2 name left right p =>
    have side : f = left ∨ f = right := by simpa [operands] using below
    rcases side with rfl | rfl <;> simp only [height] <;> omega
  | negation e p | call1 name e p =>
    rw [List.mem_singleton.mp below]
    exact Nat.lt_succ_self _

/-- One round of a recursion over formulas, its calls given, which are for operands only. -/
structure RecursesOnOperands {β : Type} (round : (Expr → β) → Expr → β) (value : Expr → β) : Prop where
  unfolds (e : Expr) : value e = round value e
  calls {f g : Expr → β} {e : Expr} (same : ∀ operand ∈ e.operands, f operand = g operand) :
    round f e = round g e

/-- As many rounds as the formula is high are enough, whatever a further call would give. -/
theorem RecursesOnOperands.iterate_eq {β : Type} {round : (Expr → β) → Expr → β} {value : Expr → β}
    (recurses : RecursesOnOperands round value) (further : Expr → β) {n : Nat} {e : Expr}
    (high : e.height ≤ n) : round^[n] further e = value e := by
  induction n generalizing e with
  | zero =>
    have := e.height_pos
    omega
  | succ n ih =>
    rw [Function.iterate_succ_apply', recurses.unfolds e]
    refine recurses.calls fun operand below => ih ?_
    have := height_lt_of_mem_operands below
    omega

def evalRound (eval : Expr → Except EvalError Value) : Expr → Except EvalError Value
  | .number v _ => .ok v
  | .binary op left right position => do
    let a ← eval left
    let b ← eval right
    let v ← op.eval position a b
    v.checked position
  | .negation operand _ => do
    let v ← eval operand
    return v.negate
  | .call0 name position => Function.call name position []
  | .call1 name argument position => do
    let v ← eval argument
    Function.call name position [v]
  | .call2 name first second position => do
    let a ← eval first
    let b ← eval second
    Function.call name position [a, b]

def textRound (text : Expr → String) : Expr → String
  | .number v _ => v.text
  | .binary op l r _ => s!"({text l} {op.text} {text r})"
  | .negation e _ => s!"(-{text e})"
  | .call0 name _ => s!"{name}()"
  | .call1 name e _ => s!"{name}({text e})"
  | .call2 name e f _ => s!"{name}({text e}, {text f})"

theorem eval_recursesOnOperands : RecursesOnOperands evalRound eval where
  unfolds e := by cases e <;> rfl
  calls {f g e} same := by
    cases e with
    | number | call0 => rfl
    | binary op left right p | call2 name left right p =>
      have sameLeft := same left (by simp [operands])
      have sameRight := same right (by simp [operands])
      simp only [evalRound, sameLeft, sameRight]
    | negation e p | call1 name e p =>
      have sameOperand := same e (by simp [operands])
      simp only [evalRound, sameOperand]

theorem text_recursesOnOperands : RecursesOnOperands textRound text where
  unfolds e := by cases e <;> rfl
  calls {f g e} same := by
    cases e with
    | number | call0 => rfl
    | binary op left right p | call2 name left right p =>
      have sameLeft := same left (by simp [operands])
      have sameRight := same right (by simp [operands])
      simp only [textRound, sameLeft, sameRight]
    | negation e p | call1 name e p =>
      have sameOperand := same e (by simp [operands])
      simp only [textRound, sameOperand]

/-- A formula that has been read is within the limits of the parser: on its operators, on the nestings of
    each path and so on the nodes of it, and with them on the recursion that evaluates or writes it. While
    it is read, the counters are within their limits, and a parsing function that succeeds has brought the
    one back and counted the operators of what it made with the other. -/
theorem parsed_within_limits (last : Value) (tokens : List Token) :
    (∀ e, ofTokens last tokens = .ok e →
      e.operatorCount ≤ 1000 ∧
        (∀ f nodes nestings, Descends e f nodes nestings → nestings ≤ 255 ∧ nodes ≤ 1256) ∧
        (∀ further, evalRound^[1256] further e = e.eval) ∧
        ∀ further, textRound^[1256] further e = e.text) ∧
      (Recorder.run last tokens).outcome = ofTokens last tokens ∧
      (∀ s ∈ Recorder.stands last tokens, s.depth ≤ 256 ∧ s.operators ≤ 1000) ∧
      ∀ fuel, let r : Routines Recorder := routines last fuel
        Keeps operatorCount r.factor ∧ Keeps operatorCount r.power ∧ Keeps operatorCount r.product ∧
          Keeps operatorCount r.sum ∧ Keeps operatorCount (nested r.factor) ∧ Keeps operatorCount (nested r.power) ∧
          (∀ p, Keeps operatorCount (group p r.sum)) ∧ (∀ name p, Keeps operatorCount (named last r.sum name p)) ∧
          ∀ p, Keeps operatorCounts (arguments p r.sum) := by
  refine ⟨fun e parsed => ?_, Recorder.run_outcome last tokens, fun s member => ?_, fun fuel => ?_⟩
  · obtain ⟨_, _, _, nesting, -, -, -, derives, nested, operators⟩ := ofTokens_eq_ok_iff.mp parsed
    have within := derives.nestings_le
    have high : e.height ≤ 1256 := by
      have := e.height_le
      omega
    refine ⟨operators, fun f nodes nestings path => ?_, fun further => ?_, fun further => ?_⟩
    · exact ⟨Nat.le_trans path.nestings_le (Nat.le_trans within nested), Nat.le_trans path.nodes_le high⟩
    · exact eval_recursesOnOperands.iterate_eq further high
    · exact text_recursesOnOperands.iterate_eq further high
  · obtain ⟨depth, operators⟩ := (Recorder.reaches_of_mem_stands member).limited (Recorder.limited_start tokens)
    exact ⟨depth, operators⟩
  · obtain ⟨factor, power⟩ := routines_count last fuel
    have product : Counts operatorCount (routines last fuel).product := chain_counts power
    have sum : Counts operatorCount (routines last fuel).sum := chain_counts product
    obtain ⟨factorFollows, powerFollows⟩ := Recorder.routines_follow last fuel
    have productFollows : Recorder.Follows (routines last fuel).product (routines last fuel).product :=
      Recorder.chain_follows powerFollows
    have sumFollows := Recorder.sumOf_follows powerFollows
    exact ⟨factorFollows.keeps factor, powerFollows.keeps power, productFollows.keeps product, sumFollows.keeps sum,
      (Recorder.nested_follows factorFollows).keeps (nested_counts factor),
      (Recorder.nested_follows powerFollows).keeps (nested_counts power),
      fun p => (Recorder.group_follows sumFollows p).keeps (group_counts p sum),
      fun name p => (Recorder.named_follows sumFollows name p).keeps (named_counts name p sum),
      fun p => (Recorder.arguments_follows sumFollows p).keeps (arguments_counts p sum)⟩

/-- The formula -2^sin(4). Its nestings are the exponent and the call in it. -/
theorem parsed_within_limits_power :
    let tokens : List Token :=
      [⟨.minus, 0⟩, ⟨.integer 2, 1⟩, ⟨.caret, 2⟩, ⟨.name "sin", 3⟩, ⟨.openParen, 6⟩, ⟨.integer 4, 7⟩,
        ⟨.closeParen, 8⟩, ⟨.done, 9⟩]
    let e : Expr :=
      .binary .pow (.negation (.number (.integer 2) 1) 0) (.call1 "sin" (.number (.integer 4) 7) 3) 2
    ofTokens (.integer 0) tokens = .ok e ∧ Descends e (.number (.integer 4) 7) 3 2 ∧
      e.operatorCount ≤ 1000 ∧
      ∀ f nodes nestings, Descends e f nodes nestings → nestings ≤ 255 ∧ nodes ≤ 1256 := by
  intro tokens e
  have parsed : ofTokens (.integer 0) tokens = .ok e := (Recorder.run_outcome _ _).symm.trans rfl
  obtain ⟨operators, paths, -⟩ := (parsed_within_limits (.integer 0) tokens).1 e parsed
  exact ⟨parsed, .exponent (.argument .here), operators, paths⟩

end Calculator.Expr
