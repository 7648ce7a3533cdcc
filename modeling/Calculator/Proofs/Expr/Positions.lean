import Calculator.Proofs.Expr.Lockstep
import Calculator.Proofs.Expr.Text
import Calculator.Proofs.Token.Blanks

namespace Calculator

open Token (InsertsBlanks Cut Spaced leads_of_longest? scan)

theorem Together.mapError_eq {ε ε' α : Type} {reason : ε → ε'} {x y : Except ε α}
    (together : Together (fun e f => reason e = reason f) Eq x y) : x.mapError reason = y.mapError reason := by
  cases together with
  | ok related => rw [related]
  | error related => exact congrArg Except.error related

section Evaluation

variable {p q : Nat}

/-- Two evaluations with the same value, or with errors that differ in their places at most. -/
def EvalError.Agree (x y : Except EvalError Value) : Prop :=
  Together (fun e f => e.reason = f.reason) Eq x y

open EvalError (Agree)

theorem EvalError.reason_ofDomain (e : DomainError) : (ofDomain p e).reason = (ofDomain q e).reason := by
  cases e <;> rfl

theorem Value.checked_agree (v : Value) : Agree (v.checked p) (v.checked q) := by
  unfold checked
  by_cases finite : v.isFinite = true
  · rw [if_pos finite, if_pos finite]
    exact .ok rfl
  · rw [if_neg finite, if_neg finite]
    exact .error rfl

theorem Operator.eval_agree (op : Operator) (a b : Value) : Agree (op.eval p a b) (op.eval q a b) := by
  unfold eval
  cases op.apply a b with
  | ok v => exact .ok rfl
  | error e => exact .error (EvalError.reason_ofDomain e)

theorem Function.call_agree (name : String) (arguments : List Value) :
    Agree (call name p arguments) (call name q arguments) := by
  unfold call
  cases find? name with
  | none => exact .error rfl
  | some f =>
    dsimp only
    cases f.apply? arguments with
    | none => exact .error rfl
    | some result =>
      cases result with
      | ok x => exact (Value.real x).checked_agree
      | error e => exact .error (EvalError.reason_ofDomain e)

theorem EvalError.Agree.bind {x y : Except EvalError Value} {f g : Value → Except EvalError Value} (first : Agree x y)
    (next : ∀ v, Agree (f v) (g v)) : Agree (x >>= f) (y >>= g) := by
  apply Together.bind first
  intro v w _ same
  rw [← same]
  exact next v

namespace Expr

theorem eval_unplaced (e : Expr) : Agree e.eval e.unplaced.eval := by
  induction e with
  | number v p => exact .ok rfl
  | binary op left right p ihl ihr =>
    exact ihl.bind fun a => ihr.bind fun b => (op.eval_agree a b).bind fun v => v.checked_agree
  | negation e p ih => exact ih.bind fun v => .ok rfl
  | call0 name p => exact Function.call_agree name []
  | call1 name e p ih => exact ih.bind fun v => Function.call_agree name [v]
  | call2 name e f p ihe ihf => exact ihe.bind fun a => ihf.bind fun b => Function.call_agree name [a, b]

theorem answer_unplaced (e : Expr) : Agree e.answer e.unplaced.answer := by
  apply (eval_unplaced e).bind
  intro v
  exact v.checked_agree.bind fun finite => .ok rfl

theorem answer_eq_of_unplaced_eq {e e' : Expr} (same : e'.unplaced = e.unplaced) :
    e'.answer.mapError EvalError.reason = e.answer.mapError EvalError.reason := by
  rw [(answer_unplaced e').mapError_eq, same, ← (answer_unplaced e).mapError_eq]

end Expr

end Evaluation

namespace Expr

variable {tokens tokens' : List Token}

def anywhere (last : Value) : Lockstep last last where
  tokens tokens tokens' := tokens'.map Token.symbol = tokens.map Token.symbol
  places _ _ := True
  reasons := Eq
  reason_self _ := rfl
  exhausted related := ⟨List.map_eq_nil_iff.mp related, trivial⟩
  next {t rest tokens'} related := by
    obtain ⟨t', rest', split, same, following⟩ := List.map_eq_cons_iff.mp related
    have turn : SameTurn last last t rest t'.symbol := same ▸ .own fun _ => rfl
    exact ⟨t', rest', split, trivial, turn, by rw [same], by rw [same], fun _ => following⟩

theorem Alike.unplaced_eq {places : Nat → Nat → Prop} {e e' : Expr} (alike : Alike places e e') :
    e'.unplaced = e.unplaced := by
  induction alike with
  | number placed | call0 placed => rfl
  | binary _ _ _ left right => rw [unplaced, left, right, unplaced]
  | negation _ _ operand => rw [unplaced, operand, unplaced]
  | call1 _ _ argument => rw [unplaced, argument, unplaced]
  | call2 _ _ _ first second => rw [unplaced, first, second, unplaced]

theorem ofTokens_of_same_symbols (last : Value) (same : tokens'.map Token.symbol = tokens.map Token.symbol) :
    ((ofTokens last tokens').map unplaced).mapError ParseError.reason =
      ((ofTokens last tokens).map unplaced).mapError ParseError.reason := by
  have together := (anywhere last).ofTokens_together same
  generalize ofTokens last tokens = parsed at together
  generalize ofTokens last tokens' = parsed' at together
  cases together with
  | ok alike => exact congrArg Except.ok alike.unplaced_eq
  | error related => exact congrArg Except.error related.1.symm

/-- Blanks put between the lexemes of a text change the places of its tokens only. Tokens that differ in their
places make trees that do, or fail for the same reason, and such trees have the same answer, or fail for the
same reason. -/
theorem scan_ofTokens_answer_anywhere :
    (∀ source text tokens, scan source = .ok tokens → InsertsBlanks source text →
      ∃ tokens', scan text = .ok tokens' ∧ tokens'.map Token.symbol = tokens.map Token.symbol) ∧
    (∀ last (tokens tokens' : List Token), tokens'.map Token.symbol = tokens.map Token.symbol →
      ((ofTokens last tokens').map unplaced).mapError ParseError.reason =
        ((ofTokens last tokens).map unplaced).mapError ParseError.reason) ∧
    ∀ e e' : Expr, e'.unplaced = e.unplaced →
      e'.answer.mapError EvalError.reason = e.answer.mapError EvalError.reason := by
  refine ⟨?_, ?_, ?_⟩
  · intro source text tokens scans inserts
    exact Token.exists_scan_of_insertsBlanks scans inserts
  · intro last tokens tokens' same
    exact ofTokens_of_same_symbols last same
  · intro e e' same
    exact answer_eq_of_unplaced_eq same

/-- Blanks in `2.** 3`, none of them between the stars or in front of the point. -/
theorem scan_two_cubed_spaced :
    let source := ['2', '.', '*', '*', ' ', '3']
    let text := ['\t', '2', '.', ' ', '*', '*', '\n', ' ', ' ', '3', ' ']
    InsertsBlanks source text ∧ ∃ tokens', scan text = .ok tokens' ∧
      tokens'.map Token.symbol = [.real 2, .doubleStar, .integer 3, .done] := by
  intro source text
  have digit {c : Char} (digit : c.isDigit = true) : Token.IsRun Char.isDigit [c] :=
    ⟨List.cons_ne_nil _ _, by simpa using digit⟩
  have blank : Token.IsRun Token.isSpacing [' '] := ⟨List.cons_ne_nil _ _, by simp [Token.isSpacing]⟩
  have cut : Cut source [.decimal ['2'] [], .mark .doubleStar, .spacing [' '], .whole ['3']] [] :=
    .cons (leads_of_longest? (l := .decimal ['2'] []) ⟨digit rfl, List.forall_mem_nil _⟩ rfl)
      (.cons (leads_of_longest? (l := .mark .doubleStar) (show _ ∈ Token.marks by decide) rfl)
        (.cons (leads_of_longest? (l := .spacing [' ']) blank rfl)
          (.cons (leads_of_longest? (l := .whole ['3']) (digit rfl) rfl) (.nil []))))
  have spaced : Spaced [.decimal ['2'] [], .mark .doubleStar, .spacing [' '], .whole ['3']] text :=
    .blank rfl (.lexeme (by decide) (.blank rfl (.lexeme (by decide)
      (@Spaced.gap _ _ [' '] ['\n', ' ', ' '] (by decide) (by simp [Token.isSpacing])
        (.lexeme (by decide) (.blank rfl .nil))))))
  have scans : scan source = .ok [⟨.real 2, 0⟩, ⟨.doubleStar, 2⟩, ⟨.integer 3, 5⟩, ⟨.done, 6⟩] := by
    decide +kernel
  exact ⟨⟨_, cut, spaced⟩, scan_ofTokens_answer_anywhere.1 source text _ scans ⟨_, cut, spaced⟩⟩

end Expr

end Calculator
