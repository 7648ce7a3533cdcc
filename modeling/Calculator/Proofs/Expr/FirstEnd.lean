import Calculator.Proofs.Expr.Lockstep
import Calculator.Proofs.Expr.Moves
import Calculator.Proofs.Expr.Recording

namespace Calculator.Expr

variable {last : Value} {admitted : Nat → Prop} {tokens tokens' front behind : List Token} {final : Token}

/-- The same tokens, all of them at admitted places, up to an end, and any tokens behind it. -/
inductive SameToEnd (admitted : Nat → Prop) : List Token → List Token → Prop
  | final {t behind behind'} (ends : t.symbol = .done) (placed : admitted t.position) :
      SameToEnd admitted (t :: behind) (t :: behind')
  | token {t rest rest'} (placed : admitted t.position) (following : SameToEnd admitted rest rest') :
      SameToEnd admitted (t :: rest) (t :: rest')

def toEnd (last : Value) (admitted : Nat → Prop) : Lockstep last last where
  tokens := SameToEnd admitted
  places p q := p = q ∧ admitted p
  reasons := Eq
  reason_self _ := rfl
  exhausted := nofun
  next {t rest _} related := by
    have turn : SameTurn last last t rest t.symbol := .own fun _ => rfl
    cases related with
    | final ends placed => exact ⟨t, _, rfl, ⟨rfl, placed⟩, turn, rfl, rfl, fun unended => absurd ends unended⟩
    | token placed following => exact ⟨t, _, rfl, ⟨rfl, placed⟩, turn, rfl, rfl, fun _ => following⟩

theorem ofTokens_of_sameToEnd (same : SameToEnd admitted tokens tokens') :
    ofTokens last tokens' = ofTokens last tokens ∧
      ∀ e, ofTokens last tokens = .error e → admitted e.position := by
  have together := (toEnd last admitted).ofTokens_together same
  generalize ofTokens last tokens = parsed at together
  generalize ofTokens last tokens' = parsed' at together
  cases together with
  | ok alike =>
    have alikePlaces := alike.imp fun _ _ placed => placed.1
    exact ⟨congrArg _ alikePlaces.eq.symm, nofun⟩
  | @error e f related =>
    obtain ⟨reason, place, placed⟩ := related
    obtain ⟨_, _⟩ := e
    obtain ⟨_, _⟩ := f
    cases reason
    cases place
    exact ⟨rfl, fun _ same => Except.error.inj same ▸ placed⟩

theorem sameToEnd_append (ends : final.symbol = .done) (placed : ∀ t ∈ front ++ [final], admitted t.position)
    (behind behind' : List Token) :
    SameToEnd admitted (front ++ final :: behind) (front ++ final :: behind') := by
  induction front with
  | nil => exact .final ends (placed final (List.mem_singleton_self final))
  | cons t front ih =>
    obtain ⟨first, others⟩ := List.forall_mem_cons.mp placed
    exact .token first (ih others)

theorem Recorder.Placed.exists_ahead {s : Stand} (placed : Placed (front ++ final :: behind) s)
    (ends : final.symbol = .done) : ∃ ahead, front = s.read.reverse ++ ahead ∧ s.rest = ahead ++ final :: behind := by
  rcases List.append_eq_append_iff.mp placed.split with ⟨excess, read, left⟩ | ⟨ahead, split, rest⟩
  · cases excess with
    | nil => exact ⟨[], by simpa using read.symm, left.symm⟩
    | cons t excess =>
      obtain ⟨rfl, _⟩ := List.cons.inj left
      have member : final ∈ s.read := List.mem_reverse.mp (by simp [read])
      exact absurd ends (placed.before_end final member)
  · exact ⟨ahead, split, rest⟩

theorem exists_first_end (ended : ∃ t ∈ tokens, t.symbol = .done) :
    ∃ front final behind, tokens = front ++ final :: behind ∧ final.symbol = .done ∧
      ∀ t ∈ front, t.symbol ≠ .done := by
  have found : (tokens.find? fun t => t.symbol = .done).isSome = true := by simpa using ended
  obtain ⟨final, first⟩ := Option.isSome_iff_exists.mp found
  obtain ⟨ends, front, behind, split, before⟩ := List.find?_eq_some_iff_append.mp first
  exact ⟨front, final, behind, split, by simpa using ends, by simpa using before⟩

/-- The parser never looks behind the first end. Wherever it stands, a token up to that end is the next one, so it
never runs out of tokens; other tokens behind the end change nothing; and an error is at the place of a token up to
the end. -/
theorem ofTokens_reads_to_first_end (last : Value) (tokens : List Token) (ended : ∃ t ∈ tokens, t.symbol = .done) :
    ∃ front final behind, tokens = front ++ final :: behind ∧ final.symbol = .done ∧
      (∀ t ∈ front, t.symbol ≠ .done) ∧
      (Recorder.run last tokens).outcome = ofTokens last tokens ∧
      (∀ s ∈ Recorder.stands last tokens,
        ∃ ahead, front = s.read.reverse ++ ahead ∧ s.rest = ahead ++ final :: behind) ∧
      (∀ behind', ofTokens last (front ++ final :: behind') = ofTokens last tokens) ∧
      ∀ e, ofTokens last tokens = .error e → ∃ t ∈ front ++ [final], e.position = t.position := by
  obtain ⟨front, final, behind, rfl, ends, before⟩ := exists_first_end ended
  have same (behind' : List Token) : SameToEnd (fun p => ∃ t ∈ front ++ [final], p = t.position)
      (front ++ final :: behind) (front ++ final :: behind') :=
    sameToEnd_append ends (fun t member => ⟨t, member, rfl⟩) behind behind'
  refine ⟨front, final, behind, rfl, ends, before, Recorder.run_outcome last _, fun s member => ?_,
    fun behind' => ?_, ?_⟩
  · have placed := (Recorder.reaches_of_mem_stands member).placed (Recorder.placed_start _)
    exact placed.exists_ahead ends
  · exact (ofTokens_of_sameToEnd (same behind')).1
  · exact (ofTokens_of_sameToEnd (same behind)).2

/-- The call `sin( 2`, which is closed behind the first end only. -/
theorem ofTokens_closed_behind_end :
    let tokens : List Token :=
      [⟨.name "sin", 5⟩, ⟨.openParen, 8⟩, ⟨.integer 2, 9⟩, ⟨.done, 12⟩, ⟨.closeParen, 13⟩, ⟨.done, 14⟩]
    (∃ t ∈ tokens, t.symbol = .done) ∧ ofTokens (.integer 0) tokens = .error ⟨.expectedClosingParen, 8⟩ ∧
      ∃ front final behind, tokens = front ++ final :: behind ∧ final.symbol = .done ∧
        (∀ t ∈ front, t.symbol ≠ .done) ∧
        (∀ s ∈ Recorder.stands (.integer 0) tokens,
          ∃ ahead, front = s.read.reverse ++ ahead ∧ s.rest = ahead ++ final :: behind) ∧
        ∀ behind', ofTokens (.integer 0) (front ++ final :: behind') = .error ⟨.expectedClosingParen, 8⟩ := by
  intro tokens
  have ended : ∃ t ∈ tokens, t.symbol = .done := by decide
  have fails : ofTokens (.integer 0) tokens = .error ⟨.expectedClosingParen, 8⟩ := by decide +kernel
  obtain ⟨front, final, behind, split, ends, before, -, ahead, unchanged, -⟩ :=
    ofTokens_reads_to_first_end (.integer 0) tokens ended
  exact ⟨ended, fails, front, final, behind, split, ends, before, ahead, fun other => (unchanged other).trans fails⟩

end Calculator.Expr
