import Calculator.Proofs.Elementary.Power
import Calculator.Proofs.Expr.Exact
import Calculator.Proofs.Expr.Lockstep
import Calculator.Proofs.Value

namespace Calculator

open Binary64 (toInt?)

theorem Together.of_map_eq {ε α β γ : Type} {x : Except ε α} {y : Except ε β} {f : α → γ} {g : β → γ}
    (same : x.map f = y.map g) : Together Eq (fun a b => f a = g b) x y := by
  cases x with
  | error e =>
    cases y with
    | error e' => exact .error (Except.error.inj same)
    | ok b => cases same
  | ok a =>
    cases y with
    | error e' => cases same
    | ok b => exact .ok (Except.ok.inj same)

theorem Together.eq {ε α : Type} {x y : Except ε α} (together : Together Eq Eq x y) : x = y := by
  cases together with
  | ok same => rw [same]
  | error same => rw [same]

namespace Operator

variable {op : Operator} {x x' y y' : Float} {a b : ℚ} {i j n : ℤ} {p : Nat}

/-- Where an operator is exact on whole numbers and its result is short, it is exact on reals. -/
theorem onReals_of_exactValue? (exact : op.exactValue? i j = some n) (bound : op = .pow → j < exponentBound)
    (left : toInt? x = some i) (right : toInt? y = some j) (short : |n| ≤ 2 ^ 53) :
    ∃ z, op.onReals x y = .ok z ∧ toInt? z = some n := by
  cases op with
  | add =>
    cases exact
    exact ⟨x + y, rfl, Binary64.toInt?_add left right short⟩
  | sub =>
    cases exact
    exact ⟨x - y, rfl, Binary64.toInt?_sub left right short⟩
  | mul =>
    cases exact
    exact ⟨x * y, rfl, Binary64.toInt?_mul left right short⟩
  | div =>
    simp only [exactValue?, Option.ite_none_right_eq_some, Option.some_inj] at exact
    obtain ⟨⟨nonzero, divides⟩, rfl⟩ := exact
    have divisor : ¬ (y == 0) = true := by
      rw [Binary64.beq_zero_iff (Binary64.toInt?_eq_some_iff.mp right)]
      exact_mod_cast nonzero
    exact ⟨x / y, if_neg divisor, Binary64.toInt?_div left right nonzero divides short⟩
  | pow =>
    simp only [exactValue?, Option.ite_none_right_eq_some, Option.some_inj] at exact
    obtain ⟨nonnegative, rfl⟩ := exact
    have small : j < 4294967296 := bound rfl
    have used : j.natAbs ≤ Elementary.maxIntegerExponent := by
      unfold Elementary.maxIntegerExponent
      omega
    exact Elementary.power_of_whole left right nonnegative used short

theorem onReals_congr (op : Operator) (left : Binary64.exactValue? x = some a)
    (left' : Binary64.exactValue? x' = some a) (right : Binary64.exactValue? y = some b)
    (right' : Binary64.exactValue? y' = some b) :
    (op.onReals x y).map Binary64.exactValue? = (op.onReals x' y').map Binary64.exactValue? := by
  cases op with
  | add =>
    refine congrArg Except.ok ?_
    rw [Binary64.exactValue?_add left right, Binary64.exactValue?_add left' right']
  | sub =>
    refine congrArg Except.ok ?_
    rw [Binary64.exactValue?_sub left right, Binary64.exactValue?_sub left' right']
  | mul =>
    refine congrArg Except.ok ?_
    rw [Binary64.exactValue?_mul left right, Binary64.exactValue?_mul left' right']
  | div =>
    by_cases zero : b = 0
    · have divisor := (Binary64.beq_zero_iff right).mpr zero
      have divisor' := (Binary64.beq_zero_iff right').mpr zero
      simp only [onReals, Binary64.divide, divisor, divisor', if_true]
    · have divisor : ¬ (y == 0) = true := fun equal => zero ((Binary64.beq_zero_iff right).mp equal)
      have divisor' : ¬ (y' == 0) = true := fun equal => zero ((Binary64.beq_zero_iff right').mp equal)
      simp only [onReals, Binary64.divide, if_neg divisor, if_neg divisor']
      refine congrArg Except.ok ?_
      rw [Binary64.exactValue?_div left right zero, Binary64.exactValue?_div left' right' zero]
  | pow => exact Elementary.power_congr left left' right right'

end Operator

/-- A short number, and a real with the same exact value. -/
inductive Value.Matches : Value → Value → Prop
  | real {v x a} (short : v.IsShort) (value : v.exactValue? = some a) (known : Binary64.exactValue? x = some a) :
      Matches v (.real x)

namespace Value

variable {v w : Value} {a : ℚ} {z z' : Float}

theorem checked_of_exactValue? (known : v.exactValue? = some a) (p : Nat) : v.checked p = .ok v :=
  checked_eq_ok_iff.mpr ⟨isFinite_of_exactValue? known, rfl⟩

theorem checked_of_no_exactValue? (unknown : Binary64.exactValue? z = none) (p : Nat) :
    (real z).checked p = .error ⟨.overflow, p⟩ := by
  refine if_neg fun finite => ?_
  obtain ⟨a, known⟩ := Binary64.isFinite_iff_exactValue?.mp finite
  rw [unknown] at known
  cases known

theorem checked_matches (same : Binary64.exactValue? z = Binary64.exactValue? z') (p : Nat) :
    Together Eq Matches ((real z).checked p) ((real z').checked p) := by
  cases known : Binary64.exactValue? z with
  | some a =>
    have known' := same.symm.trans known
    rw [checked_of_exactValue? (v := .real z) known, checked_of_exactValue? (v := .real z') known']
    exact .ok (.real True.intro known known')
  | none =>
    rw [checked_of_no_exactValue? known, checked_of_no_exactValue? (same.symm.trans known)]
    exact .error rfl

theorem Matches.negate (matching : v.Matches w) (short : v.negate.IsShort) : v.negate.Matches w.negate := by
  obtain ⟨_, value, known⟩ := matching
  exact .real short (exactValue?_negate value) (Binary64.exactValue?_neg known)

end Value

namespace Operator

variable {op : Operator} {p : Nat} {v v' w w' : Value} {n : Int64}

theorem eval_of_not_whole (inexact : op.wholeResult? v w = none) :
    op.eval p v w = ((op.onReals v.toReal w.toReal).map .real).mapError (EvalError.ofDomain p) := by
  rw [eval, apply, inexact]

theorem eval_matches_whole (left : v.Matches v') (right : w.Matches w') (whole : op.wholeResult? v w = some n)
    (short : |n.toInt| ≤ 2 ^ 53) :
    ∃ z, op.eval p v' w' = .ok (.real z) ∧ Binary64.exactValue? z = some (n.toInt : ℚ) := by
  obtain @⟨x, _, _, valueLeft, knownLeft⟩ := left
  obtain @⟨y, _, _, valueRight, knownRight⟩ := right
  obtain ⟨i, j, rfl, rfl, onWhole⟩ := wholeResult?_eq_some_iff.mp whole
  obtain ⟨exact, bound⟩ := onWhole?_eq_some_iff.mp onWhole
  have first : toInt? x = some i.toInt := Binary64.toInt?_eq_some_iff.mpr (knownLeft.trans valueLeft.symm)
  have second : toInt? y = some j.toInt := Binary64.toInt?_eq_some_iff.mpr (knownRight.trans valueRight.symm)
  obtain ⟨z, result, known⟩ := onReals_of_exactValue? exact bound first second short
  refine ⟨z, ?_, Binary64.toInt?_eq_some_iff.mp known⟩
  have reals : op.wholeResult? (.real x) (.real y) = none := rfl
  rw [eval_of_not_whole reals, Value.toReal_real, Value.toReal_real, result]
  rfl

theorem eval_matches_reals (left : v.Matches v') (right : w.Matches w') (inexact : op.wholeResult? v w = none) :
    Together Eq Value.Matches (op.eval p v w >>= Value.checked p) (op.eval p v' w' >>= Value.checked p) := by
  obtain @⟨x, _, shortLeft, valueLeft, knownLeft⟩ := left
  obtain @⟨y, _, shortRight, valueRight, knownRight⟩ := right
  have first := (Value.exactValue?_toReal shortLeft).trans valueLeft
  have second := (Value.exactValue?_toReal shortRight).trans valueRight
  have reals : op.wholeResult? (.real x) (.real y) = none := rfl
  rw [eval_of_not_whole inexact, eval_of_not_whole reals, Value.toReal_real, Value.toReal_real]
  have together := Together.of_map_eq (op.onReals_congr first knownLeft second knownRight)
  generalize op.onReals v.toReal w.toReal = outcome at together ⊢
  generalize op.onReals x y = outcome' at together ⊢
  cases together with
  | error same => exact .error (congrArg (EvalError.ofDomain p) same)
  | ok same => exact Value.checked_matches same p

theorem eval_matches (left : v.Matches v') (right : w.Matches w')
    (short : ∀ n, op.wholeResult? v w = some n → |n.toInt| ≤ 2 ^ 53) :
    Together Eq Value.Matches (op.eval p v w >>= Value.checked p) (op.eval p v' w' >>= Value.checked p) := by
  cases whole : op.wholeResult? v w with
  | some n =>
    obtain ⟨z, result, known⟩ := eval_matches_whole (p := p) left right whole (short n whole)
    rw [eval_eq_ok_iff.mpr (apply_eq_integer_iff.mpr whole), result]
    change Together _ _ (Value.checked p (.integer n)) (Value.checked p (.real z))
    rw [Value.checked_of_exactValue? (v := .integer n) rfl, Value.checked_of_exactValue? (v := .real z) known]
    exact .ok (.real (short n whole) rfl known)
  | none => exact eval_matches_reals left right whole

end Operator

namespace Expr

def inReals : Expr → Expr
  | .number v p => .number (.real v.toReal) p
  | .binary op left right p => .binary op left.inReals right.inReals p
  | .negation operand p => .negation operand.inReals p
  | .call0 name p => .call0 name p
  | .call1 name argument p => .call1 name argument.inReals p
  | .call2 name first second p => .call2 name first.inReals second.inReals p

/-- The formulas in a formula that are evaluated with it: nothing is, after an operand without a value. -/
def reached (e : Expr) : List Expr :=
  e :: match e with
    | .number _ _ => []
    | .binary _ left right _ => left.reached ++ if left.eval.isOk then right.reached else []
    | .negation operand _ => operand.reached
    | .call0 _ _ => []
    | .call1 _ argument _ => argument.reached
    | .call2 _ first second _ => first.reached ++ if first.eval.isOk then second.reached else []

theorem mem_reached_self (e : Expr) : e ∈ e.reached := by
  cases e <;> simp [reached]

/-- No whole number that comes up is past 2 ^ 53. -/
def HoldsShort (e : Expr) : Prop := ∀ s ∈ e.reached, ∀ n : Int64, s.eval = .ok (.integer n) → |n.toInt| ≤ 2 ^ 53

theorem holdsShort_iff {e : Expr} :
    e.HoldsShort ↔ e.reached.all (fun s => s.eval.toOption.all fun v => decide v.IsShort) = true := by
  rw [List.all_eq_true]
  refine forall₂_congr fun s _ => ?_
  cases s.eval with
  | error d => exact ⟨fun _ => rfl, fun _ => nofun⟩
  | ok v =>
    cases v with
    | real x => exact ⟨fun _ => rfl, fun _ => nofun⟩
    | integer n =>
      constructor
      · intro short
        exact decide_eq_true (short n rfl)
      · rintro short _ ⟨⟩
        exact of_decide_eq_true short

instance (e : Expr) : Decidable e.HoldsShort := decidable_of_iff' _ holdsShort_iff

section Nodes

variable {e f : Expr} {op : Operator} {p : Nat} {v : Value}

theorem HoldsShort.isShort (short : e.HoldsShort) (evaluates : e.eval = .ok v) : v.IsShort := by
  cases v with
  | integer n => exact short e (mem_reached_self e) n evaluates
  | real x => exact True.intro

theorem HoldsShort.left (short : (Expr.binary op e f p).HoldsShort) : e.HoldsShort :=
  fun s member => short s (List.mem_cons_of_mem _ (List.mem_append_left _ member))

theorem HoldsShort.right (short : (Expr.binary op e f p).HoldsShort) (evaluates : e.eval = .ok v) : f.HoldsShort := by
  intro s member
  refine short s (List.mem_cons_of_mem _ (List.mem_append_right _ ?_))
  rw [evaluates]
  exact member

theorem HoldsShort.operand (short : (Expr.negation e p).HoldsShort) : e.HoldsShort :=
  fun s member => short s (List.mem_cons_of_mem _ member)

end Nodes

theorem eval_inReals {e : Expr} (whole : e.IsWholeArithmetic) (short : e.HoldsShort) :
    Together Eq Value.Matches e.eval e.inReals.eval := by
  induction e with
  | number v p =>
    cases v with
    | real x => exact whole.elim
    | integer n =>
      have bound := short.isShort (v := .integer n) rfl
      exact .ok (.real bound rfl (Value.exactValue?_toReal bound))
  | binary op left right p ihl ihr =>
    refine (ihl whole.1 short.left).bind fun v v' first matching => ?_
    refine (ihr whole.2 (short.right first)).bind fun w w' second matching' => ?_
    refine Operator.eval_matches matching matching' fun n result => ?_
    refine short.isShort (v := .integer n) (eval_binary_eq_ok_iff.mpr ⟨v, w, first, second, ?_, rfl⟩)
    exact Operator.apply_eq_integer_iff.mpr result
  | negation operand p ih =>
    refine (ih whole short.operand).bind fun v v' value matching => ?_
    have negated : (Expr.negation operand p).eval = .ok v.negate := eval_negation_eq_ok_iff.mpr ⟨v, value, rfl⟩
    exact .ok (matching.negate (short.isShort negated))
  | call0 | call1 | call2 => exact whole.elim

/-- A formula of whole numbers, signs and operators has the same answer, or the same error at the same place, when
it is computed with reals from the start, provided that no whole number that comes up on the way is past 2 ^ 53. -/
theorem answer_inReals (e : Expr) (whole : e.IsWholeArithmetic)
    (short : ∀ s ∈ e.reached, ∀ n : Int64, s.eval = .ok (.integer n) → |n.toInt| ≤ 2 ^ 53) :
    e.inReals.answer = e.answer := by
  have together : Together Eq Eq e.answer e.inReals.answer := by
    refine (eval_inReals whole short).bind fun v w _ matching => ?_
    obtain ⟨_, value, known⟩ := matching
    rw [Value.checked_of_exactValue? value, Value.checked_of_exactValue? (v := .real _) known]
    exact .ok (Value.normalized_congr value known)
  exact together.eq.symm

def zeroHalves : Expr :=
  .binary .add
    (.binary .mul (.negation (.number (.integer 0) 1) 0)
      (.binary .div (.number (.integer 7) 6) (.number (.integer 2) 10) 8) 3)
    (.binary .pow (.number (.integer 2) 15) (.number (.integer 53) 19) 17) 13

theorem answer_zeroHalves_inReals :
    zeroHalves.IsWholeArithmetic ∧ zeroHalves.HoldsShort ∧ zeroHalves.inReals.answer = zeroHalves.answer := by
  have whole : zeroHalves.IsWholeArithmetic := by simp [zeroHalves, IsWholeArithmetic]
  have short : zeroHalves.HoldsShort := by decide +kernel
  exact ⟨whole, short, answer_inReals zeroHalves whole short⟩

end Expr

end Calculator
