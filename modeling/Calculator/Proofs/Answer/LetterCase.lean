import Calculator.Proofs.Expr.LetterCase
import Calculator.Proofs.Session

namespace Calculator

open Text (small)
open Formula (NoCapitalRoot)

namespace Expr

variable {base : NumeralBase} {last : Value} {formula : List Char} {e e' : Expr}

theorem ofFormula_eq_ok_iff : ofFormula base last formula = .ok e ↔
    ∃ prepared tokens, Formula.prepare base (Formula.closeParentheses formula) = .ok prepared ∧
      Token.scan prepared = .ok tokens ∧ ofTokens last tokens = .ok e := by
  simp only [ofFormula, bind_eq_ok_iff, exists_and_left]

theorem noCapitalRoot_of_ofFormula (parses : ofFormula base last formula = .ok e) : NoCapitalRoot formula := by
  obtain ⟨prepared, tokens, prepares, scans, read⟩ := ofFormula_eq_ok_iff.mp parses
  have apart := (ofTokens_eq_ok_iff.mp read).namesApart
  exact (Formula.noCapitalRoot_prepare prepares).mp (Token.noCapitalRoot_of_scan scans apart)

theorem prepare_closeParentheses_small (base : NumeralBase) (formula : List Char) :
    Formula.prepare base (Formula.closeParentheses (small formula)) =
      (Formula.prepare base (Formula.closeParentheses formula)).map small := by
  rw [Formula.closeParentheses_small, Formula.prepare_small]

theorem ofFormula_small (parses : ofFormula base last formula = .ok e) :
    ∃ e', ofFormula base last (small formula) = .ok e' ∧ e'.inSmall = e.inSmall := by
  obtain ⟨prepared, tokens, prepares, scans, read⟩ := ofFormula_eq_ok_iff.mp parses
  have plain := (Formula.noCapitalRoot_prepare prepares).mpr (noCapitalRoot_of_ofFormula parses)
  obtain ⟨e', read', names⟩ := ofTokens_recased (sameLetters_inSmall tokens) read
  refine ⟨e', ofFormula_eq_ok_iff.mpr ⟨small prepared, tokens.map Token.inSmall, ?_, ?_, read'⟩, names⟩
  · rw [prepare_closeParentheses_small, prepares]
    rfl
  · rw [Token.scan_small plain, scans]
    rfl

theorem ofFormula_of_small (plain : NoCapitalRoot formula)
    (parses : ofFormula base last (small formula) = .ok e') :
    ∃ e, ofFormula base last formula = .ok e ∧ e.inSmall = e'.inSmall := by
  obtain ⟨prepared', tokens', prepares', scans', read'⟩ := ofFormula_eq_ok_iff.mp parses
  rw [prepare_closeParentheses_small] at prepares'
  obtain ⟨prepared, prepares, rfl⟩ := map_eq_ok_iff.mp prepares'
  rw [Token.scan_small ((Formula.noCapitalRoot_prepare prepares).mpr plain)] at scans'
  obtain ⟨tokens, scans, rfl⟩ := map_eq_ok_iff.mp scans'
  obtain ⟨e, read, names⟩ := ofTokens_recased (sameLetters_inSmall tokens).symm read'
  exact ⟨e, ofFormula_eq_ok_iff.mpr ⟨prepared, tokens, prepares, scans, read⟩, names⟩

end Expr

namespace Answer

variable {base : NumeralBase} {last : Value} {formula : String} {a : Answer} {e e' : Expr}

theorem ofExpr_inSmall : ofExpr base e.inSmall = .ok a ↔ ofExpr base e = .ok a := by
  have plain : e.inSmall.answer.map (ofValue base) = .ok a ↔ e.answer.map (ofValue base) = .ok a := by
    simp only [map_eq_ok_iff, Expr.answer_inSmall]
  cases e with
  | binary op left right p =>
    cases op with
    | div =>
      unfold ofExpr Expr.inSmall
      dsimp only
      split
      · exact plain
      · simp only [map_eq_ok_iff, Expr.floorDiv_inSmall]
    | _ => exact plain
  | _ => exact plain

theorem ofExpr_of_inSmall (names : e'.inSmall = e.inSmall) : ofExpr base e' = .ok a ↔ ofExpr base e = .ok a := by
  rw [← ofExpr_inSmall, names, ofExpr_inSmall]

theorem compute_inSmall (plain : NoCapitalRoot formula.toList) :
    compute base last (Text.inSmall formula) = .ok a ↔ compute base last formula = .ok a := by
  rw [compute_eq_ok_iff, compute_eq_ok_iff, Text.inSmall, String.toList_ofList]
  constructor
  · rintro ⟨e', parses, answers⟩
    obtain ⟨e, parses, names⟩ := Expr.ofFormula_of_small plain parses
    exact ⟨e, parses, (ofExpr_of_inSmall names).mpr answers⟩
  · rintro ⟨e, parses, answers⟩
    obtain ⟨e', parses, names⟩ := Expr.ofFormula_small parses
    exact ⟨e', parses, (ofExpr_of_inSmall names).mpr answers⟩

/-- Two formulas that differ in the case of letters have the same answer or none, if in neither of them a
    capital `N` stands in front of a root sign. A formula in which one does has no answer. -/
theorem compute_ignores_letter_case (base : NumeralBase) (last : Value) (formula formula' : String)
    (letters : Text.inSmall formula' = Text.inSmall formula) :
    (NoCapitalRoot formula.toList → NoCapitalRoot formula'.toList →
      ∀ a, compute base last formula' = .ok a ↔ compute base last formula = .ok a) ∧
    (¬ NoCapitalRoot formula.toList → ∀ a, compute base last formula ≠ .ok a) := by
  refine ⟨fun plain plain' a => ?_, fun capital a computes => ?_⟩
  · rw [← compute_inSmall plain', letters, compute_inSmall plain]
  · obtain ⟨e, parses, _⟩ := compute_eq_ok_iff.mp computes
    exact capital (Expr.noCapitalRoot_of_ofFormula parses)

theorem compute_capital_logarithm :
    Text.inSmall "LOG(8,2)+ANS" = Text.inSmall "log(8,2)+Ans" ∧
      compute .decimal (.integer 2) "log(8,2)+Ans" = .ok ⟨"5", .integer 5⟩ ∧
      compute .decimal (.integer 2) "LOG(8,2)+ANS" = .ok ⟨"5", .integer 5⟩ := by
  have letters : Text.inSmall "LOG(8,2)+ANS" = Text.inSmall "log(8,2)+Ans" := by decide +kernel
  have known : compute .decimal (.integer 2) "log(8,2)+Ans" = .ok ⟨"5", .integer 5⟩ := by decide +kernel
  obtain ⟨same, _⟩ := compute_ignores_letter_case .decimal (.integer 2) _ _ letters
  exact ⟨letters, known, (same (by decide +kernel) (by decide +kernel) _).mpr known⟩

theorem compute_capital_root :
    Text.inSmall "N√(8,3)" = Text.inSmall "n√(8,3)" ∧
      compute .decimal (.integer 0) "n√(8,3)" = .ok ⟨"2", .integer 2⟩ ∧
      compute .decimal (.integer 0) "N√(8,3)" = .error (.parse ⟨.unknownName "N", 0⟩) := by
  exact ⟨by decide +kernel, by decide +kernel, by decide +kernel⟩

end Answer

end Calculator
