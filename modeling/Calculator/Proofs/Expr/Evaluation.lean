import Calculator.Expr.Eval
import Calculator.Proofs.Whole

namespace Calculator

section Outcomes

variable {ε α β : Type} {outcome : Except ε α} {a : α} {b : β}

theorem bind_eq_ok_iff {next : α → Except ε β} :
    (outcome >>= next) = .ok b ↔ ∃ a, outcome = .ok a ∧ next a = .ok b := by
  cases outcome with
  | error e => exact ⟨nofun, nofun⟩
  | ok a => exact ⟨fun followed => ⟨a, rfl, followed⟩, fun ⟨_, rfl, followed⟩ => followed⟩

theorem map_eq_ok_iff {f : α → β} : outcome.map f = .ok b ↔ ∃ a, outcome = .ok a ∧ f a = b := by
  cases outcome with
  | error e => exact ⟨nofun, nofun⟩
  | ok a => exact ⟨fun mapped => ⟨a, rfl, Except.ok.inj mapped⟩, fun ⟨_, rfl, same⟩ => congrArg _ same⟩

theorem mapError_eq_ok_iff {ε' : Type} {f : ε → ε'} : outcome.mapError f = .ok a ↔ outcome = .ok a := by
  cases outcome with
  | error e => exact ⟨nofun, nofun⟩
  | ok c => exact ⟨fun same => congrArg _ (Except.ok.inj same), fun same => congrArg _ (Except.ok.inj same)⟩

theorem exists_of_isOk (isOk : outcome.isOk = true) : ∃ a, outcome = .ok a := by
  cases outcome with
  | error e => cases isOk
  | ok a => exact ⟨a, rfl⟩

end Outcomes

theorem Value.checked_eq_ok_iff {position : Nat} {v w : Value} :
    v.checked position = .ok w ↔ v.isFinite = true ∧ v = w := by
  unfold checked
  split
  · rename_i finite
    simp [finite]
  · rename_i infinite
    simp [infinite]

theorem Value.negate_eq_integer_iff {v : Value} {n : Int64} :
    v.negate = .integer n ↔ ∃ m, v = .integer m ∧ Whole.neg? m = some n := by
  cases v with
  | real x => simp [negate]
  | integer m => cases negated : Whole.neg? m <;> simp [negate, negated]

theorem Operator.apply_eq_integer_iff {op : Operator} {a b : Value} {n : Int64} :
    op.apply a b = .ok (.integer n) ↔ op.wholeResult? a b = some n := by
  unfold apply
  cases whole : op.wholeResult? a b with
  | some m => simp
  | none => simp [map_eq_ok_iff]

theorem Operator.eval_eq_ok_iff {op : Operator} {p : Nat} {a b v : Value} :
    op.eval p a b = .ok v ↔ op.apply a b = .ok v := mapError_eq_ok_iff

theorem Function.call_is_real {name : String} {p : Nat} {arguments : List Value} {v : Value}
    (called : Function.call name p arguments = .ok v) : v.isFinite = true ∧ ∃ x, v = .real x := by
  unfold call at called
  split at called
  · cases called
  · split at called
    · cases called
    · cases called
    · obtain ⟨finite, rfl⟩ := Value.checked_eq_ok_iff.mp called
      exact ⟨finite, _, rfl⟩

namespace Expr

variable {left right e f : Expr} {op : Operator} {name : String} {p : Nat} {v : Value}

theorem eval_number : (Expr.number v p).eval = .ok v := rfl

theorem eval_binary_eq_ok_iff : (Expr.binary op left right p).eval = .ok v ↔
    ∃ a b, left.eval = .ok a ∧ right.eval = .ok b ∧ op.apply a b = .ok v ∧ v.isFinite = true := by
  rw [eval]
  simp only [bind_eq_ok_iff, Operator.eval_eq_ok_iff, Value.checked_eq_ok_iff]
  constructor
  · rintro ⟨a, first, b, second, w, applied, finite, rfl⟩
    exact ⟨a, b, first, second, applied, finite⟩
  · rintro ⟨a, b, first, second, applied, finite⟩
    exact ⟨a, first, b, second, v, applied, finite, rfl⟩

theorem eval_negation_eq_ok_iff :
    (Expr.negation e p).eval = .ok v ↔ ∃ w, e.eval = .ok w ∧ w.negate = v := by
  rw [eval, bind_eq_ok_iff]
  constructor
  · rintro ⟨w, operand, negated⟩
    exact ⟨w, operand, Except.ok.inj negated⟩
  · rintro ⟨w, operand, rfl⟩
    exact ⟨w, operand, rfl⟩

theorem eval_call0_is_real (evaluates : (Expr.call0 name p).eval = .ok v) :
    v.isFinite = true ∧ ∃ x, v = .real x := Function.call_is_real evaluates

theorem eval_call1_is_real (evaluates : (Expr.call1 name e p).eval = .ok v) :
    v.isFinite = true ∧ ∃ x, v = .real x := by
  rw [eval, bind_eq_ok_iff] at evaluates
  obtain ⟨a, _, called⟩ := evaluates
  exact Function.call_is_real called

theorem eval_call2_is_real (evaluates : (Expr.call2 name e f p).eval = .ok v) :
    v.isFinite = true ∧ ∃ x, v = .real x := by
  rw [eval, bind_eq_ok_iff] at evaluates
  obtain ⟨a, _, evaluates⟩ := evaluates
  obtain ⟨b, _, called⟩ := bind_eq_ok_iff.mp evaluates
  exact Function.call_is_real called

theorem answer_eq_ok_iff : e.answer = .ok v ↔ ∃ w, e.eval = .ok w ∧ w.isFinite = true ∧ w.normalized = v := by
  simp only [answer, bind_eq_ok_iff, Value.checked_eq_ok_iff]
  constructor
  · rintro ⟨w, value, _, ⟨finite, rfl⟩, normal⟩
    exact ⟨w, value, finite, Except.ok.inj normal⟩
  · rintro ⟨w, value, finite, rfl⟩
    exact ⟨w, value, w, ⟨finite, rfl⟩, rfl⟩

def subtrees (e : Expr) : List Expr :=
  e :: match e with
    | .number _ _ => []
    | .binary _ left right _ => left.subtrees ++ right.subtrees
    | .negation operand _ => operand.subtrees
    | .call0 _ _ => []
    | .call1 _ argument _ => argument.subtrees
    | .call2 _ first second _ => first.subtrees ++ second.subtrees

theorem mem_subtrees_self (e : Expr) : e ∈ e.subtrees := by
  cases e <;> simp [subtrees]

end Expr

end Calculator
