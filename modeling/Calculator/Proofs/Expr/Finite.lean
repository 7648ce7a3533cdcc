import Calculator.Proofs.Binary64.Exact
import Calculator.Proofs.Expr.Evaluation

namespace Calculator

/-- A whole number, or a finite real whose exact value is no whole number of 64 bits. -/
def Value.IsNormal : Value → Prop
  | .integer _ => True
  | .real x => ∃ q, Binary64.exactValue? x = some q ∧ ∀ n : Int, q = n → ¬ Whole.InRange n

theorem Value.isNormal_normalized {v : Value} (finite : v.isFinite = true) : v.normalized.IsNormal := by
  cases v with
  | integer n => trivial
  | real x =>
    obtain ⟨q, value⟩ := Binary64.isFinite_iff_exactValue?.mp finite
    unfold normalized
    split
    · trivial
    · rename_i notWhole
      refine ⟨q, value, fun n same inRange => ?_⟩
      obtain ⟨w, toInt⟩ := Whole.exists_toInt_eq inRange
      have known : Binary64.toInt? x = some n := Binary64.toInt?_eq_some_iff.mpr (same ▸ value)
      have whole : toWhole? (.real x) = some w := by
        rw [toWhole?, wholeOfReal?, known]
        exact Whole.ofInt?_eq_some_iff.mpr toInt
      rw [whole] at notWhole
      cases notWhole

theorem Value.IsNormal.isFinite {v : Value} (normal : v.IsNormal) : v.isFinite = true := by
  cases v with
  | integer n => rfl
  | real x =>
    obtain ⟨q, value, _⟩ := normal
    exact Binary64.isFinite_iff_exactValue?.mpr ⟨q, value⟩

theorem Value.isFinite_negate {v : Value} (finite : v.isFinite = true) : v.negate.isFinite = true := by
  cases v with
  | real x => exact Binary64.isFinite_neg finite
  | integer n =>
    cases negated : Whole.neg? n with
    | some m => simp only [negate, negated, isFinite]
    | none =>
      simp only [negate, negated]
      rw [Whole.neg?_eq_none negated]
      decide +kernel

namespace Expr

def NumbersFinite (e : Expr) : Prop := ∀ v p, .number v p ∈ e.subtrees → v.isFinite = true

theorem subtrees_trans {e f g : Expr} (inner : f ∈ e.subtrees) (innermost : g ∈ f.subtrees) :
    g ∈ e.subtrees := by
  induction e with
  | number v p =>
    rw [subtrees, List.mem_singleton] at inner
    exact inner ▸ innermost
  | call0 name p =>
    rw [subtrees, List.mem_singleton] at inner
    exact inner ▸ innermost
  | negation operand p ih =>
    rcases List.mem_cons.mp inner with rfl | inner
    · exact innermost
    · exact List.mem_cons_of_mem _ (ih inner)
  | call1 name argument p ih =>
    rcases List.mem_cons.mp inner with rfl | inner
    · exact innermost
    · exact List.mem_cons_of_mem _ (ih inner)
  | binary op left right p leftIh rightIh =>
    rcases List.mem_cons.mp inner with rfl | inner
    · exact innermost
    · exact List.mem_cons_of_mem _ (List.mem_append.mpr ((List.mem_append.mp inner).imp leftIh rightIh))
  | call2 name first second p firstIh secondIh =>
    rcases List.mem_cons.mp inner with rfl | inner
    · exact innermost
    · exact List.mem_cons_of_mem _ (List.mem_append.mpr ((List.mem_append.mp inner).imp firstIh secondIh))

theorem NumbersFinite.subtree {e f : Expr} (finite : e.NumbersFinite) (inner : f ∈ e.subtrees) :
    f.NumbersFinite :=
  fun v p member => finite v p (subtrees_trans inner member)

theorem isFinite_eval {e : Expr} {v : Value} (finite : e.NumbersFinite) (evaluates : e.eval = .ok v) :
    v.isFinite = true := by
  -- binary nodes and calls check their results, so only numbers and negations need the hypothesis
  induction e generalizing v with
  | number w p =>
    cases evaluates
    exact finite w p (mem_subtrees_self _)
  | negation operand p ih =>
    obtain ⟨w, operandValue, rfl⟩ := eval_negation_eq_ok_iff.mp evaluates
    have inner : operand ∈ (negation operand p).subtrees := List.mem_cons_of_mem _ (mem_subtrees_self _)
    exact Value.isFinite_negate (ih (finite.subtree inner) operandValue)
  | binary op left right p leftIh rightIh =>
    obtain ⟨a, b, leftValue, rightValue, applied, checked⟩ := eval_binary_eq_ok_iff.mp evaluates
    exact checked
  | call0 name p => exact (eval_call0_is_real evaluates).1
  | call1 name argument p ih => exact (eval_call1_is_real evaluates).1
  | call2 name first second p firstIh secondIh => exact (eval_call2_is_real evaluates).1

theorem isNormal_answer {e : Expr} {v : Value} (answers : e.answer = .ok v) : v.IsNormal := by
  obtain ⟨w, _, finite, rfl⟩ := answer_eq_ok_iff.mp answers
  exact Value.isNormal_normalized finite

end Expr

end Calculator
