import Calculator.Answer
import Calculator.Proofs.Formula.Layout

namespace Calculator

open Formula (prepare Layout Word)

theorem ofFormula_write {base : NumeralBase} {layout : Layout} (last : Value)
    (wellFormed : layout.WellFormed base) :
    Expr.ofFormula base last (layout.write base) = Expr.ofFormula .decimal last (layout.write .decimal) := by
  simp only [Expr.ofFormula, Formula.prepare_closeParentheses_write wellFormed]

theorem ofExpr_value_of_not_division {base other : NumeralBase} {e : Expr}
    (noDivision : ∀ left right p, e ≠ .binary .div left right p) :
    (Answer.ofExpr base e).map Answer.value = (Answer.ofExpr other e).map Answer.value := by
  have plain (base : NumeralBase) : Answer.ofExpr base e = e.answer.map (Answer.ofValue base) := by
    unfold Answer.ofExpr
    split
    · exact absurd rfl (noDivision _ _ _)
    · rfl
  rw [plain, plain]
  cases e.answer <;> rfl

theorem map_value_mapError {outcome : Except EvalError Answer} :
    (outcome.mapError Failure.eval).map Answer.value = (outcome.map Answer.value).mapError Failure.eval := by
  cases outcome <;> rfl

theorem compute_value_write {base : NumeralBase} {last : Value} {layout : Layout}
    (wellFormed : layout.WellFormed base)
    (noDivision : ∀ left right p,
      Expr.ofFormula .decimal last (layout.write .decimal) ≠ .ok (.binary .div left right p)) :
    (Answer.compute base last (String.ofList (layout.write base))).map Answer.value =
      (Answer.compute .decimal last (String.ofList (layout.write .decimal))).map Answer.value := by
  simp only [Answer.compute, String.toList_ofList, ofFormula_write last wellFormed]
  cases parsed : Expr.ofFormula .decimal last (layout.write .decimal) with
  | error e => rfl
  | ok e =>
    have root : ∀ left right p, e ≠ .binary .div left right p := by
      intro left right p same
      exact noDivision left right p (same ▸ parsed)
    simp only [map_value_mapError]
    rw [ofExpr_value_of_not_division root]

/-- Whole numbers mean the same in each base they are written in. -/
theorem compute_independent_of_notation (base : NumeralBase) (layout : Layout)
    (wellFormed : layout.WellFormed base) :
    (∃ text, prepare base (layout.write base) = .ok text ∧
      prepare .decimal (layout.write .decimal) = .ok text) ∧
    ∀ last, (∀ left right p,
        Expr.ofFormula .decimal last (layout.write .decimal) ≠ .ok (.binary .div left right p)) →
      (Answer.compute base last (String.ofList (layout.write base))).map Answer.value =
        (Answer.compute .decimal last (String.ofList (layout.write .decimal))).map Answer.value := by
  refine ⟨?_, fun last noDivision => compute_value_write wellFormed noDivision⟩
  have same := Formula.prepare_write [] wellFormed fun _ member => by cases member
  rw [List.append_nil, List.append_nil] at same
  have prepares := Formula.prepare_of_unmarked .decimal
    (Formula.separatorMark_not_mem_write .decimal wellFormed)
  exact ⟨_, same.trans prepares, prepares⟩

def octalLayout : Layout where
  leading := []
  words := [(.numeral 8, ['+']), (.verbatim ['l', 'o', 'g'], ['(']), (.numeral 15, [',']),
    (.verbatim ['9'], [])]

theorem compute_octalLayout :
    octalLayout.WellFormed .octal ∧
      (∀ left right p,
        Expr.ofFormula .decimal (.integer 0) "8+log(15,9".toList ≠ .ok (.binary .div left right p)) ∧
      (∃ text, prepare .octal "10+log(17,9".toList = .ok text ∧
        prepare .decimal "8+log(15,9".toList = .ok text) ∧
      (Answer.compute .octal (.integer 0) "10+log(17,9").map Answer.value =
        (Answer.compute .decimal (.integer 0) "8+log(15,9").map Answer.value := by
  have wellFormed : octalLayout.WellFormed .octal := ⟨by decide, by decide, by decide, by decide⟩
  have parsed : (Expr.ofFormula .decimal (.integer 0) (octalLayout.write .decimal)).toOption =
      some (.binary .add (.number (.integer 8) 0)
        (.call2 "log" (.number (.integer 15) 6) (.number (.integer 9) 9) 2) 1) := by decide +kernel
  have noDivision : ∀ left right p, Expr.ofFormula .decimal (.integer 0) (octalLayout.write .decimal) ≠
      .ok (.binary .div left right p) := by
    intro left right p division
    rw [division] at parsed
    cases parsed
  obtain ⟨prepared, answered⟩ := compute_independent_of_notation .octal octalLayout wellFormed
  exact ⟨wellFormed, noDivision, prepared, answered (.integer 0) noDivision⟩

end Calculator
