import Calculator.Answer
import Calculator.Proofs.Expr.Moves
import Calculator.Proofs.Expr.Recording
import Calculator.Proofs.Formula.Parentheses

namespace Calculator

open Calculator.Expr (Opening unmatched behindName ofTokens)
open Calculator.Expr.Recorder (Placed run stands)
open Formula (openAfter unclosed closeParentheses parenthesisOf? prepare)
open Token (scan)

namespace Expr

theorem length_unmatched (read : List Token) :
    (unmatched read).length = (read.reverse.filterMap parenthesisOf?).foldl openAfter 0 := by
  induction read with
  | nil => rfl
  | cons t before ih =>
    rw [List.reverse_cons, List.filterMap_append, List.foldl_append, ← ih]
    obtain ⟨symbol, p⟩ := t
    cases symbol with
    | closeParen => exact List.length_tail
    | _ => rfl

theorem exists_opening_of_mem_unmatched {p : Nat} {read : List Token} (opened : .group p ∈ unmatched read) :
    ∃ inside before, read = inside ++ ⟨.openParen, p⟩ :: before ∧ behindName before = false := by
  induction read with
  | nil => cases opened
  | cons t before ih =>
    have earlier (opened : .group p ∈ unmatched before) :
        ∃ inside before', t :: before = inside ++ ⟨.openParen, p⟩ :: before' ∧ behindName before' = false := by
      obtain ⟨inside, before', rfl, unnamed⟩ := ih opened
      exact ⟨t :: inside, before', rfl, unnamed⟩
    obtain ⟨symbol, q⟩ := t
    cases symbol with
    | openParen =>
      simp only [unmatched] at opened
      rcases List.mem_cons.mp opened with here | opened
      · split at here
        · cases here
        · rename_i unnamed
          cases here
          exact ⟨[], before, rfl, by simpa using unnamed⟩
      · exact earlier opened
    | closeParen => exact earlier (List.mem_of_mem_tail opened)
    | _ => exact earlier opened

theorem Recorder.Placed.exists_next {body : List Token} {last : Token} {s : Stand}
    (placed : Placed (body ++ [last]) s) (ends : last.symbol = .done) (before : ∀ t ∈ body, t.symbol ≠ .done)
    (closed : (body.filterMap parenthesisOf?).foldl openAfter 0 = 0) (inside : s.opened ≠ []) :
    ∃ t rest, s.rest = t :: rest ∧ t.symbol ≠ .done := by
  obtain ⟨split, unended, stack⟩ := placed
  have unread : last ∉ s.read := fun member => unended last member ends
  have notAll : s.read.reverse ≠ body := by
    intro all
    have empty : (unmatched s.read).length = 0 := by rw [length_unmatched, all, closed]
    exact inside (stack.trans (List.eq_nil_of_length_eq_zero empty))
  cases left : s.rest with
  | nil =>
    rw [left, List.append_nil] at split
    have member : last ∈ s.read.reverse := split ▸ List.mem_append_right body (List.mem_singleton_self last)
    exact absurd (List.mem_reverse.mp member) unread
  | cons t rest =>
    refine ⟨t, rest, rfl, fun ended => ?_⟩
    rw [left] at split
    rcases List.append_eq_append_iff.mp split with ⟨more, read, tail⟩ | ⟨more, read, tail⟩
    · cases more with
      | nil => exact notAll (by simpa using read)
      | cons u more => simp at tail
    · cases more with
      | nil => exact notAll (by simpa using read.symm)
      | cons u more =>
        obtain ⟨rfl, -⟩ := List.cons.inj tail
        exact before t (read ▸ by simp) ended

end Expr

theorem Token.reason_of_scan {source : List Char} {e : ParseError} (fails : scan source = .error e) :
    e.reason ≠ .expectedClosingParen := by
  obtain ⟨lexemes, rest, cut, finite, rfl | ⟨reason, unscannable⟩⟩ := exists_cut source
  · rw [scan_of_cut_end cut finite] at fails
    cases fails
  · rw [scan_of_cut_unscannable cut finite unscannable] at fails
    cases fails
    cases unscannable <;> nofun

namespace Answer

/-- Closing the parentheses of a formula keeps its end out of all of them. -/
theorem exists_next_of_prepare {base : NumeralBase} {formula prepared : List Char} {tokens : List Token}
    {s : Expr.Stand} (prepares : prepare base (closeParentheses formula) = .ok prepared)
    (scans : scan prepared = .ok tokens) (placed : Placed tokens s) (inside : s.opened ≠ []) :
    ∃ t rest, s.rest = t :: rest ∧ t.symbol ≠ .done := by
  obtain ⟨body, last, rfl, ends, before, same⟩ := Formula.exists_body_of_scan scans
  refine placed.exists_next ends before ?_ inside
  rw [same, Formula.parentheses_prepare prepares, Formula.foldl_openAfter_parentheses]
  exact Formula.unclosed_closeParentheses formula

theorem exists_tokens_of_expectedClosingParen {base : NumeralBase} {last : Value} {formula : String} {p : Nat}
    (fails : compute base last formula = .error (.parse ⟨.expectedClosingParen, p⟩)) :
    ∃ prepared tokens, prepare base (closeParentheses formula.toList) = .ok prepared ∧
      scan prepared = .ok tokens ∧ ofTokens last tokens = .error ⟨.expectedClosingParen, p⟩ := by
  unfold compute at fails
  split at fails
  · rename_i e parsed
    cases fails
    unfold Expr.ofFormula at parsed
    cases prepares : prepare base (closeParentheses formula.toList) with
    | error e =>
      rw [prepares] at parsed
      cases parsed
      unfold prepare at prepares
      split at prepares <;> cases prepares
    | ok prepared =>
      rw [prepares] at parsed
      cases scans : scan prepared with
      | error e =>
        have passed : (Except.error e : Except ParseError Expr) = .error ⟨.expectedClosingParen, p⟩ := by
          simpa [bind, Except.bind, scans] using parsed
        cases passed
        exact absurd rfl (Token.reason_of_scan scans)
      | ok tokens =>
        refine ⟨prepared, tokens, rfl, scans, ?_⟩
        simpa [bind, Except.bind, scans] using parsed
  · rename_i e parsed
    cases evaluated : ofExpr base e with
    | error e =>
      rw [evaluated] at fails
      cases fails
    | ok a =>
      rw [evaluated] at fails
      cases fails

/-- The parser of a formula never comes to the end inside a parenthesis. So when a closing parenthesis is
    missing, it is that of a group, and another token stands where it is expected. -/
theorem compute_closes_parentheses (base : NumeralBase) (last : Value) (formula : String) :
    (∀ prepared tokens, prepare base (closeParentheses formula.toList) = .ok prepared →
      scan prepared = .ok tokens →
        (run last tokens).outcome = ofTokens last tokens ∧
        ∀ s ∈ stands last tokens, tokens = s.read.reverse ++ s.rest ∧ s.opened = unmatched s.read ∧
          (s.opened ≠ [] → ∃ t rest, s.rest = t :: rest ∧ t.symbol ≠ .done)) ∧
      ∀ p, compute base last formula = .error (.parse ⟨.expectedClosingParen, p⟩) →
        ∃ prepared tokens, prepare base (closeParentheses formula.toList) = .ok prepared ∧
          scan prepared = .ok tokens ∧ ∃ front inside found rest outer,
            tokens = front ++ ⟨.openParen, p⟩ :: (inside ++ found :: rest) ∧
            behindName front.reverse = false ∧
            (run last tokens).final.read.reverse = front ++ ⟨.openParen, p⟩ :: inside ∧
            (run last tokens).final.opened = .group p :: outer ∧
            found.symbol ≠ .closeParen ∧ found.symbol ≠ .done := by
  refine ⟨fun prepared tokens prepares scans => ⟨Expr.Recorder.run_outcome last tokens, ?_⟩, fun p fails => ?_⟩
  · intro s member
    have placed := (Expr.Recorder.reaches_of_mem_stands member).placed (Expr.Recorder.placed_start tokens)
    exact ⟨placed.split, placed.opened, exists_next_of_prepare prepares scans placed⟩
  · obtain ⟨prepared, tokens, prepares, scans, stops⟩ := exists_tokens_of_expectedClosingParen fails
    have course := Expr.Recorder.run_meets last tokens
    have placed := course.reached.placed (Expr.Recorder.placed_start tokens)
    have unclosed := course.stopped p ((Expr.Recorder.run_outcome last tokens).trans stops)
    refine ⟨prepared, tokens, prepares, scans, ?_⟩
    generalize (run last tokens).final = s at placed unclosed ⊢
    cases unclosed with
    | @group outer opened notClosed =>
      have isOpen : s.opened ≠ [] := by rw [opened]; nofun
      obtain ⟨found, rest, left, unended⟩ := exists_next_of_prepare prepares scans placed isOpen
      have member : .group p ∈ unmatched s.read := by
        rw [← placed.opened, opened]
        exact List.mem_cons_self
      obtain ⟨inside, front, read, unnamed⟩ := Expr.exists_opening_of_mem_unmatched member
      have order : s.read.reverse = front.reverse ++ ⟨.openParen, p⟩ :: inside.reverse := by simp [read]
      refine ⟨front.reverse, inside.reverse, found, rest, outer, ?_, ?_, order, opened,
        notClosed found (by rw [left]; rfl), unended⟩
      · rw [placed.split, left, order, List.append_assoc, List.cons_append]
      · rw [List.reverse_reverse]
        exact unnamed
    | @call outer opened ended =>
      -- arguments go without their parenthesis only at the end, which is not inside one
      have isOpen : s.opened ≠ [] := by rw [opened]; nofun
      obtain ⟨found, rest, left, unended⟩ := exists_next_of_prepare prepares scans placed isOpen
      exact absurd (ended found (by rw [left]; rfl)) unended

/-- The binary formula sin(-(10 1, in which the second group is not closed behind its number. -/
theorem compute_closes_parentheses_gap :
    let source := "sin(-(10 1"
    let prepared := "sin(-(2 1))".toList
    let tokens : List Token :=
      [⟨.name "sin", 0⟩, ⟨.openParen, 3⟩, ⟨.minus, 4⟩, ⟨.openParen, 5⟩, ⟨.integer 2, 6⟩, ⟨.integer 1, 8⟩,
        ⟨.closeParen, 9⟩, ⟨.closeParen, 10⟩, ⟨.done, 11⟩]
    prepare .binary (closeParentheses source.toList) = .ok prepared ∧ scan prepared = .ok tokens ∧
      (∀ s ∈ stands (.integer 0) tokens, s.opened ≠ [] → ∃ t rest, s.rest = t :: rest ∧ t.symbol ≠ .done) ∧
      compute .binary (.integer 0) source = .error (.parse ⟨.expectedClosingParen, 5⟩) ∧
      ∃ prepared tokens, prepare .binary (closeParentheses source.toList) = .ok prepared ∧
        scan prepared = .ok tokens ∧ ∃ front inside found rest outer,
          tokens = front ++ ⟨.openParen, 5⟩ :: (inside ++ found :: rest) ∧
          behindName front.reverse = false ∧
          (run (.integer 0) tokens).final.read.reverse = front ++ ⟨.openParen, 5⟩ :: inside ∧
          (run (.integer 0) tokens).final.opened = .group 5 :: outer ∧
          found.symbol ≠ .closeParen ∧ found.symbol ≠ .done := by
  intro source prepared tokens
  have prepares : prepare .binary (closeParentheses source.toList) = .ok prepared := by decide +kernel
  have scans : scan prepared = .ok tokens := by decide +kernel
  have fails : compute .binary (.integer 0) source = .error (.parse ⟨.expectedClosingParen, 5⟩) := by
    decide +kernel
  obtain ⟨never, stops⟩ := compute_closes_parentheses .binary (.integer 0) source
  obtain ⟨-, inside⟩ := never prepared tokens prepares scans
  exact ⟨prepares, scans, fun s member => (inside s member).2.2, fails, stops 5 fails⟩

end Answer

end Calculator
