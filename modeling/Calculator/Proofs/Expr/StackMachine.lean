import Calculator.Expr.Postorder
import Calculator.Proofs.Expr.Evaluation
import Calculator.Proofs.Function

namespace Calculator

inductive Halt where
  | starved
  | failed (e : EvalError)
deriving DecidableEq, Repr

def settle (position : Nat) : Except DomainError Value → Except EvalError Value
  | .ok v => if v.isFinite then .ok v else .error ⟨.overflow, position⟩
  | .error .overflow => .error ⟨.overflow, position⟩
  | .error e => .error ⟨.domain e, position⟩

namespace Node

def position : Node → Nat
  | .number _ p => p
  | .binary _ p => p
  | .negation p => p
  | .call0 _ p => p
  | .call1 _ p => p
  | .call2 _ p => p

def call (name : String) (position : Nat) (arguments : List Value) : Except EvalError Value :=
  match Function.table.lookup (Text.foldName name) with
  | none => .error ⟨.unknownFunction name, position⟩
  | some f =>
    match f.apply? arguments with
    | none => .error ⟨.argumentCount name f.arity arguments.length, position⟩
    | some outcome => settle position (outcome.map .real)

def put (stack : List Value) (outcome : Except EvalError Value) : Except Halt (List Value) :=
  (outcome.mapError .failed).map (· :: stack)

/-- Puts the value of a node in the place of its operands, the last of which is the top of the stack. -/
def run : Node → List Value → Except Halt (List Value)
  | .number v _, stack => .ok (v :: stack)
  | .binary op p, b :: a :: stack => put stack (settle p (op.apply a b))
  | .negation _, a :: stack => .ok (a.negate :: stack)
  | .call0 name p, stack => put stack (call name p [])
  | .call1 name p, a :: stack => put stack (call name p [a])
  | .call2 name p, b :: a :: stack => put stack (call name p [a, b])
  | _, _ => .error .starved

def runAll : List Node → List Value → Except Halt (List Value)
  | [], stack => .ok stack
  | node :: nodes, stack => node.run stack >>= runAll nodes

end Node

section Operations

variable {p : Nat} {e : EvalError}

theorem Operator.eval_checked (op : Operator) (p : Nat) (a b : Value) :
    (op.eval p a b >>= fun v => v.checked p) = settle p (op.apply a b) := by
  unfold eval
  cases op.apply a b with
  | ok v => rfl
  | error e => cases e <;> rfl

theorem Node.call_eq (name : String) (p : Nat) (arguments : List Value) :
    call name p arguments = Function.call name p arguments := by
  unfold call Function.call Function.find?
  cases Function.table.lookup (Text.foldName name) with
  | none => rfl
  | some f =>
    dsimp only
    cases f.apply? arguments with
    | none => rfl
    | some outcome =>
      cases outcome with
      | ok x => rfl
      | error e => cases e <;> rfl

/-- An error of a node: at its place, and with no source that counts as an overflow or is for samples only. -/
structure Node.Reports (p : Nat) (e : EvalError) : Prop where
  placed : e.position = p
  source : ∀ d, e.reason = .domain d → d ≠ .overflow ∧ d ≠ .insufficientData

open Node (Reports)

theorem reports_settle {outcome : Except DomainError Value} (supplied : Supplied outcome)
    (fails : settle p outcome = .error e) : Reports p e := by
  unfold settle at fails
  split at fails
  · split at fails
    · cases fails
    · cases fails
      exact ⟨rfl, nofun⟩
  · cases fails
    exact ⟨rfl, nofun⟩
  · rename_i d other
    cases fails
    refine ⟨rfl, fun _ same => ?_⟩
    cases same
    exact ⟨other, fun missing => supplied (congrArg Except.error missing)⟩

theorem Node.reports_call {name : String} {arguments : List Value} (fails : call name p arguments = .error e) :
    Reports p e := by
  unfold call at fails
  split at fails
  · cases fails
    exact ⟨rfl, nofun⟩
  · rename_i f known
    split at fails
    · cases fails
      exact ⟨rfl, nofun⟩
    · rename_i outcome applied
      exact reports_settle (Function.supplied_outcome (Function.supplied_of_find? known) applied).map fails

end Operations

namespace Node

variable {e : EvalError} {node : Node} {nodes more : List Node} {stack : List Value}

theorem put_eq_failed_iff {outcome : Except EvalError Value} :
    put stack outcome = .error (.failed e) ↔ outcome = .error e := by
  cases outcome with
  | ok v => exact ⟨nofun, nofun⟩
  | error f => exact ⟨fun same => congrArg _ (Halt.failed.inj (Except.error.inj same)), fun same => by rw [same]; rfl⟩

theorem reports_run (fails : node.run stack = .error (.failed e)) : Reports node.position e := by
  unfold run at fails
  split at fails
  · cases fails
  · exact reports_settle (Operator.supplied_apply _ _ _) (put_eq_failed_iff.mp fails)
  · cases fails
  · exact reports_call (put_eq_failed_iff.mp fails)
  · exact reports_call (put_eq_failed_iff.mp fails)
  · exact reports_call (put_eq_failed_iff.mp fails)
  · cases fails

theorem runAll_append (nodes more : List Node) (stack : List Value) :
    runAll (nodes ++ more) stack = runAll nodes stack >>= runAll more := by
  induction nodes generalizing stack with
  | nil => rfl
  | cons node nodes ih =>
    rw [List.cons_append, runAll, runAll]
    cases node.run stack with
    | ok next => exact ih next
    | error halt => rfl

theorem exists_node_of_runAll {halt : Halt} (stops : runAll nodes stack = .error halt) :
    ∃ before node after stack', nodes = before ++ node :: after ∧ runAll before stack = .ok stack' ∧
      node.run stack' = .error halt := by
  induction nodes generalizing stack with
  | nil => cases stops
  | cons node nodes ih =>
    rw [runAll] at stops
    cases first : node.run stack with
    | error halt' =>
      rw [first] at stops
      cases stops
      exact ⟨[], node, nodes, stack, rfl, rfl, first⟩
    | ok next =>
      rw [first] at stops
      obtain ⟨before, failing, after, stack', rfl, runs, fails⟩ := ih stops
      refine ⟨node :: before, failing, after, stack', rfl, ?_, fails⟩
      rw [runAll, first]
      exact runs

end Node

namespace Expr

open Node (put runAll runAll_append)

/-- With any values below its own on the stack, a formula puts its value on it or stops the machine. -/
theorem runAll_postorder (e : Expr) (stack : List Value) : runAll e.postorder stack = put stack e.eval := by
  have single (node : Node) (stack : List Value) : runAll [node] stack = node.run stack := by
    rw [runAll]
    cases node.run stack <;> rfl
  induction e generalizing stack with
  | number v p => rfl
  | binary op l r p ihl ihr =>
    rw [postorder, runAll_append, runAll_append, ihl, eval]
    cases l.eval with
    | error e => rfl
    | ok a =>
      change (runAll r.postorder (a :: stack) >>= runAll _) = _
      rw [ihr]
      cases r.eval with
      | error e => rfl
      | ok b => exact (single _ _).trans (congrArg (put stack) (op.eval_checked p a b).symm)
  | negation e p ih =>
    rw [postorder, runAll_append, ih, eval]
    cases e.eval with
    | error e => rfl
    | ok a => exact single (.negation p) (a :: stack)
  | call0 name p => exact (single _ _).trans (congrArg (put stack) (Node.call_eq name p []))
  | call1 name e p ih =>
    rw [postorder, runAll_append, ih, eval]
    cases e.eval with
    | error e => rfl
    | ok a => exact (single _ _).trans (congrArg (put stack) (Node.call_eq name p [a]))
  | call2 name e f p ihe ihf =>
    rw [postorder, runAll_append, runAll_append, ihe, eval]
    cases e.eval with
    | error e => rfl
    | ok a =>
      change (runAll f.postorder (a :: stack) >>= runAll _) = _
      rw [ihf]
      cases f.eval with
      | error e => rfl
      | ok b => exact (single _ _).trans (congrArg (put stack) (Node.call_eq name p [a, b]))

theorem eval_eq_ok_iff_runAll {e : Expr} {stack : List Value} {v : Value} :
    e.eval = .ok v ↔ runAll e.postorder stack = .ok (v :: stack) := by
  rw [runAll_postorder]
  cases e.eval with
  | ok w => exact ⟨fun same => by rw [same]; rfl, fun same => congrArg _ (List.cons.inj (Except.ok.inj same)).1⟩
  | error error => exact ⟨nofun, nofun⟩

theorem eval_eq_error_iff_runAll {e : Expr} {stack : List Value} {error : EvalError} :
    e.eval = .error error ↔ runAll e.postorder stack = .error (.failed error) := by
  rw [runAll_postorder, Node.put_eq_failed_iff]

/-- A formula evaluates to the value that its nodes leave on the stack, or to the error of the first node that
fails in post-order. The error is at the place of that node. Its source is no overflow of a function, which is an
error of its own, and no want of samples. -/
theorem eval_runs_postorder (e : Expr) :
    (∀ stack v, e.eval = .ok v ↔ runAll e.postorder stack = .ok (v :: stack)) ∧
      (∀ stack error, e.eval = .error error ↔ runAll e.postorder stack = .error (.failed error)) ∧
      ∀ error, e.eval = .error error → ∃ before node after stack, e.postorder = before ++ node :: after ∧
        runAll before [] = .ok stack ∧ node.run stack = .error (.failed error) ∧ error.position = node.position ∧
        ∀ d, error.reason = .domain d → d ≠ .overflow ∧ d ≠ .insufficientData := by
  refine ⟨fun _ _ => eval_eq_ok_iff_runAll, fun _ _ => eval_eq_error_iff_runAll, fun error fails => ?_⟩
  obtain ⟨before, node, after, stack, split, runs, stops⟩ :=
    Node.exists_node_of_runAll (eval_eq_error_iff_runAll.mp fails)
  have reports := Node.reports_run stops
  exact ⟨before, node, after, stack, split, runs, stops, reports.placed, reports.source⟩

/-- The formula `fact(171) + foo(1 / 0)`: the factorial is past the reals, and fails before the quotient and before
the function that is not known. -/
theorem eval_first_failure :
    let e : Expr := .binary .add (.call1 "fact" (.number (.integer 171) 5) 0)
      (.call1 "foo" (.binary .div (.number (.integer 1) 16) (.number (.integer 0) 20) 18) 12) 10
    e.eval = .error ⟨.overflow, 0⟩ ∧ ∃ before node after stack, e.postorder = before ++ node :: after ∧
      runAll before [] = .ok stack ∧ node.run stack = .error (.failed ⟨.overflow, 0⟩) ∧ 0 = node.position := by
  intro e
  have fails : e.eval = .error ⟨.overflow, 0⟩ := rfl
  obtain ⟨-, -, first⟩ := eval_runs_postorder e
  obtain ⟨before, node, after, stack, split, runs, stops, placed, -⟩ := first _ fails
  exact ⟨fails, before, node, after, stack, split, runs, stops, placed⟩

end Expr

end Calculator
