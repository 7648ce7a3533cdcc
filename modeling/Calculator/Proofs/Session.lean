import Calculator.CommandLine.Formulas
import Calculator.Proofs.Decimal.Shown
import Calculator.Proofs.Expr.Finite

namespace Calculator

namespace Answer

variable {base : NumeralBase} {last : Value} {formula : String} {a : Answer}

theorem beginsNumber_render {v : Value} (base : NumeralBase) (finite : v.isFinite = true) :
    BeginsNumber (v.render base).toList := by
  cases v with
  | integer n =>
    rw [Value.render, String.toList_ofList]
    exact base.beginsNumber_showInt n.toInt
  | real x =>
    rw [Value.render, String.toList_ofList]
    exact Decimal.beginsNumber_showReal finite

theorem beginsNumber_renderDivision (base : NumeralBase) (d : Whole.Division) :
    BeginsNumber (renderDivision base d).toList := by
  rw [renderDivision, String.append_assoc, String.toList_append, String.toList_ofList]
  exact (base.beginsNumber_showInt _).append _

theorem ofExpr_cases {e : Expr} (answers : ofExpr base e = .ok a) :
    (∃ v, e.answer = .ok v ∧ ofValue base v = a) ∨ ∃ d, ofDivision base d = a := by
  unfold ofExpr at answers
  split at answers
  · split at answers
    · exact .inl (map_eq_ok_iff.mp answers)
    · obtain ⟨d, _, division⟩ := map_eq_ok_iff.mp answers
      exact .inr ⟨d, division⟩
  · exact .inl (map_eq_ok_iff.mp answers)

theorem compute_eq_ok_iff : compute base last formula = .ok a ↔
    ∃ e, Expr.ofFormula base last formula.toList = .ok e ∧ ofExpr base e = .ok a := by
  unfold compute
  cases Expr.ofFormula base last formula.toList with
  | error reason => simp
  | ok e => simp [mapError_eq_ok_iff]

theorem compute_shape (computes : compute base last formula = .ok a) :
    a.value.IsNormal ∧ BeginsNumber a.text.toList := by
  obtain ⟨e, _, answers⟩ := compute_eq_ok_iff.mp computes
  rcases ofExpr_cases answers with ⟨v, value, rfl⟩ | ⟨d, rfl⟩
  · have normal := Expr.isNormal_answer value
    exact ⟨normal, beginsNumber_render base normal.isFinite⟩
  · exact ⟨trivial, beginsNumber_renderDivision base d⟩

theorem textOf_compute_is_number (base : NumeralBase) (last : Value) (formula : String) :
    textOf (compute base last formula) ∉ ["inf.0", "-inf.0", "NaN.0"] := by
  cases computes : compute base last formula with
  | error failure =>
    change errorText ∉ _
    decide
  | ok a => exact (compute_shape computes).2.is_number

end Answer

namespace Session

theorem run_cons (last : Value) (line : Line) (rest : List Line) :
    run last (line :: rest) =
      (Answer.compute line.base last line.formula ::
          (run (nextAnswer last (Answer.compute line.base last line.formula)) rest).1,
        (run (nextAnswer last (Answer.compute line.base last line.formula)) rest).2) := rfl

theorem isNormal_nextAnswer {last : Value} {line : Line}
    (known : last.IsNormal ∨ ∃ a, Answer.compute line.base last line.formula = .ok a) :
    (nextAnswer last (Answer.compute line.base last line.formula)).IsNormal := by
  cases computes : Answer.compute line.base last line.formula with
  | ok a => exact (Answer.compute_shape computes).1
  | error failure =>
    refine known.resolve_right fun ⟨a, answered⟩ => ?_
    rw [computes] at answered
    cases answered

theorem isNormal_run {last : Value} {lines : List Line}
    (known : last.IsNormal ∨ ∃ a, .ok a ∈ (run last lines).1) : (run last lines).2.IsNormal := by
  -- a line either answers, or fails and leaves a last answer that the hypothesis must then be about
  induction lines generalizing last with
  | nil => exact known.resolve_right fun ⟨a, member⟩ => by cases member
  | cons line rest ih =>
    rw [run_cons] at known ⊢
    apply ih
    rcases known with normal | ⟨a, member⟩
    · exact .inl (isNormal_nextAnswer (.inl normal))
    · rcases List.mem_cons.mp member with first | later
      · exact .inl (isNormal_nextAnswer (.inr ⟨a, first.symm⟩))
      · exact .inr ⟨a, later⟩

theorem textOf_run_is_number {last : Value} {lines : List Line} :
    ∀ outcome ∈ (run last lines).1, Answer.textOf outcome ∉ ["inf.0", "-inf.0", "NaN.0"] := by
  induction lines generalizing last with
  | nil => exact fun _ member => by cases member
  | cons line rest ih =>
    intro outcome member
    rw [run_cons] at member
    rcases List.mem_cons.mp member with rfl | later
    · exact Answer.textOf_compute_is_number _ _ _
    · exact ih outcome later

/-- Answers are normalized, values of subtrees are finite, and both hold on in every session. -/
theorem answers_finite_and_normal :
    (∀ base last formula a, Answer.compute base last formula = .ok a → a.value.IsNormal) ∧
    (∀ e : Expr, e.NumbersFinite → ∀ s ∈ e.subtrees, ∀ v, s.eval = .ok v → v.isFinite = true) ∧
    (∀ last lines,
      ((∃ a, .ok a ∈ (run last lines).1) → (run last lines).2.IsNormal) ∧
      ∀ outcome ∈ (run last lines).1, Answer.textOf outcome ∉ ["inf.0", "-inf.0", "NaN.0"]) ∧
    ∀ (arguments : CommandLine.Arguments) lines, ∃ texts : List String,
      (arguments.answer lines).stdout = String.join (texts.map (· ++ "\n")) ∧
      ∀ text ∈ texts, text ∉ ["inf.0", "-inf.0", "NaN.0"] := by
  refine ⟨?_, ?_, ?_, ?_⟩
  · intro base last formula a computes
    exact (Answer.compute_shape computes).1
  · intro e finite s inner v evaluates
    exact Expr.isFinite_eval (finite.subtree inner) evaluates
  · intro last lines
    exact ⟨fun answered => isNormal_run (.inr answered), textOf_run_is_number⟩
  · intro arguments lines
    let outcomes := (run (arguments.last?.getD default) (arguments.formulas lines)).1
    refine ⟨outcomes.map Answer.textOf, ?_, ?_⟩
    · rw [List.map_map]
      rfl
    · intro text member
      obtain ⟨outcome, inside, rfl⟩ := List.mem_map.mp member
      exact textOf_run_is_number outcome inside

def recovery : List Line := [⟨"1/0", .decimal⟩, ⟨"7/2-ans^0", .decimal⟩, ⟨"ans+", .octal⟩]

def quotient : Expr := .binary .div (.number (.integer 7) 1) (.number (.integer 2) 3) 2

theorem recovery_after_notANumber :
    (∃ a, Answer.compute .decimal (.real Binary64.notANumber) "7/2-ans^0" = .ok a ∧ a.value.IsNormal) ∧
      (Expr.NumbersFinite (.negation quotient 0) ∧ quotient ∈ (Expr.negation quotient 0).subtrees ∧
        quotient.eval = .ok (.real 3.5) ∧ (Value.real 3.5).isFinite = true) ∧
      (∃ a, .ok a ∈ (run (.real Binary64.notANumber) recovery).1) ∧
        (run (.real Binary64.notANumber) recovery).2.IsNormal := by
  have computes : ∃ a, Answer.compute .decimal (.real Binary64.notANumber) "7/2-ans^0" = .ok a := by
    have known : (Answer.compute .decimal (.real Binary64.notANumber) "7/2-ans^0").isOk = true := by
      decide +kernel
    exact exists_of_isOk known
  have numbers : Expr.NumbersFinite (.negation quotient 0) := by
    intro v p member
    simp [quotient, Expr.subtrees] at member
    rcases member with ⟨rfl, _⟩ | ⟨rfl, _⟩ <;> rfl
  have inner : quotient ∈ (Expr.negation quotient 0).subtrees :=
    List.mem_cons_of_mem _ (Expr.mem_subtrees_self quotient)
  have evaluates : quotient.eval = .ok (.real 3.5) := by decide +kernel
  have answered : ∃ a, .ok a ∈ (run (.real Binary64.notANumber) recovery).1 := by
    have known : (run (.real Binary64.notANumber) recovery).1.any Except.isOk = true := by decide +kernel
    obtain ⟨outcome, member, isOk⟩ := List.any_eq_true.mp known
    obtain ⟨a, rfl⟩ := exists_of_isOk isOk
    exact ⟨a, member⟩
  obtain ⟨normal, finite, sessions, _⟩ := answers_finite_and_normal
  obtain ⟨a, answer⟩ := computes
  exact ⟨⟨a, answer, normal _ _ _ a answer⟩,
    ⟨numbers, inner, evaluates, finite _ numbers _ inner _ evaluates⟩,
    answered, (sessions _ _).1 answered⟩

end Session

end Calculator
