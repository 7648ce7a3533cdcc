import Calculator.Proofs.Expr.LastAnswer
import Calculator.Proofs.Session

namespace Calculator

theorem bind_congr_of_ok {ε α β : Type} {x : Except ε α} {f g : α → Except ε β}
    (same : ∀ a, x = .ok a → f a = g a) : x >>= f = x >>= g := by
  cases x with
  | error e => rfl
  | ok a => exact same a rfl

namespace Expr

instance decidableAnswerFree : (tokens : List Token) → Decidable (AnswerFree tokens)
  | [] => .isTrue answerFree_nil
  | t :: rest =>
    have := decidableAnswerFree rest
    decidable_of_iff (isBareAnswer t rest = false ∧ AnswerFree rest) answerFree_cons_iff.symm

end Expr

namespace Session

def Line.tokens (line : Line) : Except ParseError (List Token) :=
  Formula.prepare line.base (Formula.closeParentheses line.formula.toList) >>= Token.scan

/-- No bare name of the last answer is among the tokens of a line, if it has tokens. -/
def Line.AnswerFree (line : Line) : Prop :=
  ∀ tokens, line.tokens = .ok tokens → Expr.AnswerFree tokens

def Line.outcome (line : Line) (last : Value) : Except Failure Answer :=
  Answer.compute line.base last line.formula

variable {line : Line} {lines lines' : List Line} {last : Value}

theorem ofFormula_eq_ofTokens (line : Line) (last : Value) :
    Expr.ofFormula line.base last line.formula.toList = line.tokens >>= Expr.ofTokens last := by
  unfold Line.tokens Expr.ofFormula
  cases Formula.prepare line.base (Formula.closeParentheses line.formula.toList) <;> rfl

theorem Line.AnswerFree.outcome_eq (free : line.AnswerFree) (v u : Value) :
    line.outcome v = line.outcome u := by
  have sameTree : Expr.ofFormula line.base v line.formula.toList =
      Expr.ofFormula line.base u line.formula.toList := by
    rw [ofFormula_eq_ofTokens, ofFormula_eq_ofTokens]
    exact bind_congr_of_ok fun tokens scanned => Expr.ofTokens_of_answerFree (free tokens scanned) u v
  unfold outcome Answer.compute
  rw [sameTree]

theorem run_append (last : Value) (lines lines' : List Line) :
    run last (lines ++ lines') =
      ((run last lines).1 ++ (run (run last lines).2 lines').1, (run (run last lines).2 lines').2) := by
  induction lines generalizing last with
  | nil => rfl
  | cons line rest ih =>
    rw [List.cons_append, run_cons, ih, run_cons]
    rfl

theorem length_run (last : Value) (lines : List Line) : (run last lines).1.length = lines.length := by
  induction lines generalizing last with
  | nil => rfl
  | cons line rest ih => rw [run_cons, List.length_cons, ih, List.length_cons]

theorem getElem?_run (last : Value) (before : List Line) (line : Line) (after : List Line) :
    (run last (before ++ line :: after)).1[before.length]? =
      some (line.outcome (run last before).2) := by
  rw [run_append, run_cons]
  dsimp only
  rw [List.getElem?_append_right (Nat.le_of_eq (length_run last before)), length_run, Nat.sub_self]
  rfl

theorem run_of_answerFree (free : ∀ line ∈ lines, line.AnswerFree) (v : Value) :
    (run last lines).1 = lines.map fun line => line.outcome v := by
  induction lines generalizing last with
  | nil => rfl
  | cons line rest ih =>
    have first : line.outcome last = line.outcome v := (free line List.mem_cons_self).outcome_eq last v
    rw [run_cons, ih fun other member => free other (List.mem_cons_of_mem _ member), List.map_cons]
    exact congrArg (· :: _) first

theorem zip_run_of_answerFree (free : ∀ line ∈ lines, line.AnswerFree) (v : Value) :
    lines.zip (run last lines).1 = lines.map fun line => (line, line.outcome v) := by
  rw [run_of_answerFree free v, List.map_prod_left_eq_zip]

def answered (last : Value) (lines : List Line) : List Line :=
  ((lines.zip (run last lines).1).filter fun pair => pair.2.isOk).map Prod.fst

theorem answered_cons_ok {a : Answer} {rest : List Line} (answers : line.outcome last = .ok a) :
    answered last (line :: rest) = line :: answered a.value rest := by
  change Answer.compute line.base last line.formula = .ok a at answers
  unfold answered
  rw [run_cons, answers]
  rfl

theorem answered_cons_error {failure : Failure} {rest : List Line}
    (fails : line.outcome last = .error failure) :
    answered last (line :: rest) = answered last rest := by
  change Answer.compute line.base last line.formula = .error failure at fails
  unfold answered
  rw [run_cons, fails]
  rfl

theorem run_answered (last : Value) (lines : List Line) :
    run last (answered last lines) = ((run last lines).1.filter Except.isOk, (run last lines).2) := by
  -- a failing line hands on the last answer it was given, so the lines behind it see no difference
  induction lines generalizing last with
  | nil => rfl
  | cons line rest ih =>
    cases outcome : line.outcome last with
    | ok a =>
      rw [answered_cons_ok outcome, run_cons, run_cons]
      change Answer.compute line.base last line.formula = .ok a at outcome
      rw [outcome, nextAnswer, ih]
      rfl
    | error failure =>
      rw [answered_cons_error outcome, ih, run_cons]
      change Answer.compute line.base last line.formula = .error failure at outcome
      rw [outcome]
      rfl

/-- A line without a bare name of the last answer has the same outcome behind all lines and with all first
    last answers, so a session of such lines may be put in any order; and the lines that fail in a session
    can be left out of it. -/
theorem outcomes_independent_of_history :
    (∀ line : Line, line.AnswerFree → ∀ (v last : Value) (before after : List Line),
      (run last (before ++ line :: after)).1[before.length]? = some (line.outcome v)) ∧
    (∀ lines lines' : List Line, lines.Perm lines' → (∀ line ∈ lines, line.AnswerFree) →
      ∀ last last' : Value,
        (run last lines).1.Perm (run last' lines').1 ∧
          (lines.zip (run last lines).1).Perm (lines'.zip (run last' lines').1)) ∧
    ∀ (last : Value) (lines : List Line),
      run last (answered last lines) = ((run last lines).1.filter Except.isOk, (run last lines).2) := by
  refine ⟨?_, ?_, run_answered⟩
  · intro line free v last before after
    rw [getElem?_run, free.outcome_eq _ v]
  · intro lines lines' perm free last last'
    have free' : ∀ line ∈ lines', line.AnswerFree := fun line member => free line (perm.mem_iff.mpr member)
    rw [zip_run_of_answerFree free last, zip_run_of_answerFree free' last, run_of_answerFree free last,
      run_of_answerFree free' last]
    exact ⟨perm.map _, perm.map _⟩

def unsettled : List Line :=
  [⟨"2+", .decimal⟩, ⟨"7/0", .octal⟩, ⟨"1+ans(2)", .decimal⟩, ⟨"111/10", .binary⟩]

theorem outcomes_of_unsettled :
    (∀ line ∈ unsettled, line.AnswerFree) ∧
      (run (.integer 5) ([⟨"ans+1", .decimal⟩] ++ ⟨"111/10", .binary⟩ :: unsettled)).1[1]? =
        some (Line.outcome ⟨"111/10", .binary⟩ (.integer 0)) ∧
      (run (.integer 5) unsettled).1.Perm (run (.integer 8) unsettled.reverse).1 := by
  have free : ∀ line ∈ unsettled, line.AnswerFree := by
    have known : unsettled.all (fun line => line.tokens.toOption.all fun tokens =>
        decide (Expr.AnswerFree tokens)) = true := by decide +kernel
    intro line member tokens scanned
    have checked := List.all_eq_true.mp known line member
    rw [scanned] at checked
    exact of_decide_eq_true checked
  obtain ⟨anywhere, reordered, _⟩ := outcomes_independent_of_history
  have quotient : Line.AnswerFree ⟨"111/10", .binary⟩ := free _ (by simp [unsettled])
  exact ⟨free, anywhere _ quotient (.integer 0) (.integer 5) [⟨"ans+1", .decimal⟩] unsettled,
    (reordered _ _ (List.reverse_perm unsettled).symm free (.integer 5) (.integer 8)).1⟩

end Session

end Calculator
