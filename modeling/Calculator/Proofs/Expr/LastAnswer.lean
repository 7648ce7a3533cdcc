import Calculator.Proofs.Expr.Lockstep

namespace Calculator

inductive ParseError.Kind where
  | unexpectedCharacter
  | literalTooLarge
  | unexpectedToken
  | unexpectedEnd
  | expectedClosingParen
  | unknownName
  | tooManyArguments
  | trailingTokens
  | nestingTooDeep
  | tooManyOperators
deriving DecidableEq, Repr

def ParseError.Reason.kind : ParseError.Reason → ParseError.Kind
  | .unexpectedCharacter _ => .unexpectedCharacter
  | .literalTooLarge => .literalTooLarge
  | .unexpectedToken _ => .unexpectedToken
  | .unexpectedInArguments _ => .unexpectedToken
  | .unexpectedEnd => .unexpectedEnd
  | .expectedClosingParen => .expectedClosingParen
  | .unknownName _ => .unknownName
  | .tooManyArguments _ => .tooManyArguments
  | .trailingTokens _ => .trailingTokens
  | .nestingTooDeep => .nestingTooDeep
  | .tooManyOperators => .tooManyOperators

namespace Expr

/-- The tokens with a number for each bare name of the last answer. -/
def settleAnswer (v : Value) : List Token → List Token
  | [] => []
  | t :: rest => (if isBareAnswer t rest then ⟨.ofValue v, t.position⟩ else t) :: settleAnswer v rest

def AnswerFree (tokens : List Token) : Prop :=
  ∀ front t rest, tokens = front ++ t :: rest → isBareAnswer t rest = false

theorem answerFree_nil : AnswerFree [] := by
  intro front t rest split
  cases front <;> cases split

theorem answerFree_cons_iff {t : Token} {rest : List Token} :
    AnswerFree (t :: rest) ↔ isBareAnswer t rest = false ∧ AnswerFree rest := by
  constructor
  · intro free
    refine ⟨free [] t rest rfl, fun front next following split => ?_⟩
    exact free (t :: front) next following (by rw [split, List.cons_append])
  · intro parts front next following split
    cases front with
    | nil =>
      cases split
      exact parts.1
    | cons first front =>
      cases split
      exact parts.2 front next following rfl

theorem sameTurn_settled (v u : Value) (t : Token) (rest : List Token) :
    SameTurn v u t rest (if isBareAnswer t rest then (⟨.ofValue v, t.position⟩ : Token) else t).symbol := by
  cases bare : isBareAnswer t rest with
  | true => exact .settled bare
  | false => exact .own fun impossible => absurd (bare.symm.trans impossible) nofun

theorem settled_position (v : Value) (t : Token) (rest : List Token) :
    (if isBareAnswer t rest then (⟨.ofValue v, t.position⟩ : Token) else t).position = t.position := by
  split <;> rfl

def settled (v u : Value) : Lockstep v u where
  tokens tokens tokens' := tokens' = settleAnswer v tokens
  places := Eq
  reasons reason reason' := reason.kind = reason'.kind
  reason_self _ := rfl
  exhausted related := ⟨related, rfl⟩
  next {t rest _} related :=
    ⟨_, _, related, (settled_position v t rest).symm, sameTurn_settled v u t rest, rfl, rfl, fun _ => rfl⟩

def answerFree (v u : Value) : Lockstep v u where
  tokens tokens tokens' := tokens' = tokens ∧ AnswerFree tokens
  places := Eq
  reasons := Eq
  reason_self _ := rfl
  exhausted related := ⟨related.1, rfl⟩
  next {t rest _} related := by
    obtain ⟨same, free⟩ := related
    obtain ⟨own, others⟩ := answerFree_cons_iff.mp free
    have turn : SameTurn v u t rest t.symbol := .own fun bare => absurd (own.symm.trans bare) nofun
    exact ⟨t, rest, same, rfl, turn, rfl, rfl, fun _ => ⟨rfl, others⟩⟩

theorem ofTokens_of_answerFree {tokens : List Token} (free : AnswerFree tokens) (v u : Value) :
    ofTokens u tokens = ofTokens v tokens := by
  have together := (answerFree v u).ofTokens_together (⟨rfl, free⟩ : tokens = tokens ∧ _)
  generalize ofTokens v tokens = parsed at together
  generalize ofTokens u tokens = parsed' at together
  cases together with
  | ok alike => exact congrArg _ alike.eq.symm
  | @error e f related =>
    obtain ⟨reason, placed⟩ := related
    cases e
    cases f
    cases reason
    cases placed
    rfl

/-- A formula depends on the last answer as if its number stood for each bare name of it: with any other
    last answer the settled tokens make the same tree, or fail for a reason of the same kind at the same
    place. -/
theorem ofTokens_settleAnswer (v u : Value) (tokens : List Token) :
    ((∃ e, ofTokens v tokens = .ok e ∧ ofTokens u (settleAnswer v tokens) = .ok e) ∨
      ∃ e f, ofTokens v tokens = .error e ∧ ofTokens u (settleAnswer v tokens) = .error f ∧
        e.reason.kind = f.reason.kind ∧ e.position = f.position) ∧
      (AnswerFree tokens → ofTokens u tokens = ofTokens v tokens) := by
  refine ⟨?_, fun free => ofTokens_of_answerFree free v u⟩
  have together := (settled v u).ofTokens_together (rfl : settleAnswer v tokens = settleAnswer v tokens)
  generalize ofTokens v tokens = parsed at together
  generalize ofTokens u (settleAnswer v tokens) = parsed' at together
  cases together with
  | ok alike => exact .inl ⟨_, rfl, congrArg _ alike.eq.symm⟩
  | @error e f related => exact .inr ⟨e, f, rfl, rfl, related⟩

/-- The formula ans(2)+π, in which the name of the last answer is called. -/
theorem ofTokens_called_answer :
    let tokens : List Token :=
      [⟨.name "ans", 0⟩, ⟨.openParen, 3⟩, ⟨.integer 2, 4⟩, ⟨.closeParen, 5⟩, ⟨.plus, 6⟩, ⟨.name "π", 7⟩,
        ⟨.done, 8⟩]
    AnswerFree tokens ∧ ofTokens (.integer 9) tokens = ofTokens (.integer 4) tokens := by
  intro tokens
  have free : AnswerFree tokens := by
    simp only [tokens, answerFree_cons_iff]
    exact ⟨by decide, by decide, by decide, by decide, by decide, by decide, by decide, answerFree_nil⟩
  exact ⟨free, (ofTokens_settleAnswer (.integer 4) (.integer 9) tokens).2 free⟩

end Expr

end Calculator
