import Calculator.Expr.OfTokens

namespace Calculator.Expr

open Parsing

variable {α β : Type} {p : Parser α} {f : α → Parser β} {s t u : Progress} {a : α} {b : β}

def Gives (p : Parser α) (s : Progress) (a : α) (t : Progress) : Prop := p s = .ok (a, t)

theorem gives_bind_iff : Gives (p >>= f) s b u ↔ ∃ a t, Gives p s a t ∧ Gives (f a) t b u := by
  unfold Gives
  change (p s >>= fun r => f r.1 r.2) = _ ↔ _
  cases p s with
  | error e =>
    constructor
    · nofun
    · rintro ⟨_, _, impossible, _⟩
      cases impossible
  | ok r =>
    constructor
    · intro gives
      exact ⟨r.1, r.2, rfl, gives⟩
    · rintro ⟨_, _, same, gives⟩
      cases same
      exact gives

theorem gives_pure_iff {b : α} : Gives (pure a) s b t ↔ a = b ∧ s = t := by
  constructor
  · intro same
    cases same
    exact ⟨rfl, rfl⟩
  · rintro ⟨rfl, rfl⟩
    rfl

theorem not_gives_fail {reason : ParseError.Reason} {position : Nat} :
    ¬ Gives (fail reason position) s a t := nofun

theorem gives_ofExcept_iff {outcome : Except ParseError α} :
    Gives (ofExcept outcome) s a t ↔ outcome = .ok a ∧ s = t := by
  cases outcome with
  | error e =>
    constructor
    · exact fun gives => absurd gives not_gives_fail
    · nofun
  | ok b =>
    rw [Except.ok.injEq]
    exact gives_pure_iff

theorem gives_peek_bind_iff {f : Option Token → Parser β} :
    Gives (peek >>= f) s b u ↔ Gives (f s.rest.head?) s b u := Iff.rfl

section Steps

variable {f : Unit → Parser β}

theorem gives_advance_bind_iff : Gives (advance >>= f) s b u ↔ Gives (f ()) s.past b u := Iff.rfl

theorem gives_leave_bind_iff : Gives (leave >>= f) s b u ↔ Gives (f ()) s.past b u := Iff.rfl

theorem gives_enter_bind_iff {o : Opening} : Gives (enter o >>= f) s b u ↔ Gives (f ()) s.past b u := Iff.rfl

theorem gives_count_bind_iff {position : Nat} :
    Gives (countOperator position >>= f) s b u ↔ s.operators < maxOperators ∧ Gives (f ()) s.counted b u := by
  rw [gives_bind_iff]
  constructor
  · rintro ⟨_, t, counts, gives⟩
    by_cases room : s.operators < maxOperators
    · cases counts.symm.trans (Parser.countOperator_of_room room)
      exact ⟨room, gives⟩
    · cases counts.symm.trans (Parser.countOperator_of_full room)
  · rintro ⟨room, gives⟩
    exact ⟨(), s.counted, Parser.countOperator_of_room room, gives⟩

theorem gives_advance_pure_iff {b : α} : Gives (advance >>= fun _ => pure a) s b t ↔ a = b ∧ s.past = t :=
  gives_advance_bind_iff.trans gives_pure_iff

theorem gives_leave_pure_iff {b : α} : Gives (leave >>= fun _ => pure a) s b t ↔ a = b ∧ s.past = t :=
  gives_leave_bind_iff.trans gives_pure_iff

end Steps

theorem gives_nested_iff :
    Gives (nested p) s a t ↔ s.depth < maxNesting ∧ ∃ u, Gives p s.deeper a u ∧ u.shallower = t := by
  by_cases room : s.depth < maxNesting
  · unfold Gives
    rw [Parser.nested_of_room p room]
    cases p s.deeper with
    | error e =>
      constructor
      · nofun
      · rintro ⟨-, _, impossible, -⟩
        cases impossible
    | ok r =>
      constructor
      · intro given
        cases given
        exact ⟨room, r.2, rfl, rfl⟩
      · rintro ⟨-, u, given, rfl⟩
        cases given
        rfl
  · constructor
    · intro given
      cases (Parser.nested_of_full p room).symm.trans given
    · rintro ⟨impossible, -⟩
      exact absurd impossible room

section Chains

variable {accepts : Operator → Bool} {operand : Parser Expr} {fuel : Nat} {left e : Expr} {next : Token}
  {tail : List Token}

theorem gives_chainFrom_of_refused (refused : ∀ n ∈ s.rest.head?, n.symbol.operator?.filter accepts = none) :
    Gives (chainFrom accepts operand fuel left) s e t ↔ left = e ∧ s = t := by
  cases fuel with
  | zero => exact gives_pure_iff
  | succ fuel =>
    rw [chainFrom, gives_peek_bind_iff]
    cases first : s.rest.head? with
    | none => exact gives_pure_iff
    | some next =>
      simp only [refused next first]
      exact gives_pure_iff

theorem gives_chainFrom_of_accepted {op : Operator} (following : s.rest = next :: tail)
    (accepted : next.symbol.operator?.filter accepts = some op) :
    Gives (chainFrom accepts operand (fuel + 1) left) s e u ↔ s.operators < maxOperators ∧
      ∃ right t, Gives operand s.counted.past right t ∧
        Gives (chainFrom accepts operand fuel (.binary op left right next.position)) t e u := by
  rw [chainFrom, gives_peek_bind_iff, following]
  simp only [List.head?_cons, accepted]
  rw [gives_count_bind_iff, gives_advance_bind_iff, gives_bind_iff]

theorem gives_chain_iff : Gives (chain accepts operand) s e u ↔
    ∃ first t, Gives operand s first t ∧ Gives (chainFrom accepts operand (t.rest.length + 1) first) t e u :=
  gives_bind_iff

theorem gives_powerOf_iff {factor exponent : Parser Expr} :
    Gives (powerOf factor exponent) s e u ↔ ∃ base t, Gives factor s base t ∧
      ((∀ n ∈ t.rest.head?, n.symbol.operator? ≠ some .pow) ∧ base = e ∧ t = u ∨
        ∃ next tail, t.rest = next :: tail ∧ next.symbol.operator? = some .pow ∧ t.operators < maxOperators ∧
          ∃ right, Gives exponent t.counted.past right u ∧ .binary .pow base right next.position = e) := by
  unfold powerOf
  rw [gives_bind_iff]
  refine exists_congr fun base => exists_congr fun t => and_congr_right fun _ => ?_
  rw [gives_peek_bind_iff]
  obtain ⟨rest, depth, operators⟩ := t
  cases rest with
  | nil => simp [gives_pure_iff]
  | cons next tail =>
    simp only [List.head?_cons]
    by_cases isPower : next.symbol.operator? = some .pow
    · rw [if_pos isPower, gives_count_bind_iff, gives_advance_bind_iff, gives_bind_iff]
      constructor
      · rintro ⟨room, right, v, reads, given⟩
        obtain ⟨rfl, rfl⟩ := gives_pure_iff.mp given
        exact .inr ⟨next, tail, rfl, isPower, room, right, reads, rfl⟩
      · rintro (⟨other, -, -⟩ | ⟨next, tail, same, -, room, right, reads, rfl⟩)
        · exact absurd isPower (other next rfl)
        · cases same
          exact ⟨room, right, u, reads, rfl⟩
    · rw [if_neg isPower, gives_pure_iff]
      constructor
      · rintro ⟨rfl, rfl⟩
        exact .inl ⟨by simpa using isPower, rfl, rfl⟩
      · rintro (⟨-, rfl, rfl⟩ | ⟨next, tail, same, isPower', -⟩)
        · exact ⟨rfl, rfl⟩
        · cases same
          exact absurd isPower' isPower

end Chains

section Parentheses

variable {last : Value} {sum : Parser Expr} {es : List Expr} {e : Expr} {name : String} {opened position fuel : Nat}

theorem gives_argumentsFrom_iff : Gives (argumentsFrom opened sum (fuel + 1)) s es u ↔
    ∃ first t next tail, Gives sum s first t ∧ t.rest = next :: tail ∧
      ((∃ others, next.symbol = .comma ∧ Gives (argumentsFrom opened sum fuel) t.past others u ∧ first :: others = es) ∨
        next.symbol = .closeParen ∧ [first] = es ∧ t.past = u) := by
  rw [argumentsFrom, gives_bind_iff]
  constructor
  · rintro ⟨first, ⟨rest, depth, operators⟩, reads, onward⟩
    rw [gives_peek_bind_iff] at onward
    rcases rest with _ | ⟨⟨symbol, q⟩, tail⟩
    · exact absurd onward not_gives_fail
    refine ⟨first, _, ⟨symbol, q⟩, tail, reads, rfl, ?_⟩
    cases symbol with
    | comma =>
      have onward := gives_advance_bind_iff.mp onward
      obtain ⟨others, v, following, given⟩ := gives_bind_iff.mp onward
      obtain ⟨rfl, rfl⟩ := gives_pure_iff.mp given
      exact .inl ⟨others, rfl, following, rfl⟩
    | closeParen =>
      obtain ⟨rfl, rfl⟩ := gives_leave_pure_iff.mp onward
      exact .inr ⟨rfl, rfl, rfl⟩
    | _ => exact absurd onward not_gives_fail
  · rintro ⟨first, ⟨_, depth, operators⟩, ⟨_, q⟩, tail, reads, rfl, ⟨others, rfl, following, rfl⟩ | ⟨rfl, rfl, rfl⟩⟩
    · have onward : Gives (argumentsFrom opened sum fuel >>= fun others => pure (first :: others))
          (Progress.past ⟨⟨.comma, q⟩ :: tail, depth, operators⟩) (first :: others) u :=
        gives_bind_iff.mpr ⟨others, u, following, rfl⟩
      exact ⟨first, _, reads, onward⟩
    · exact ⟨first, _, reads, rfl⟩

theorem gives_arguments_iff : Gives (arguments opened sum) s es u ↔
    (∃ q tail, s.rest = ⟨.closeParen, q⟩ :: tail ∧ [] = es ∧ s.past = u) ∨
      (∀ n ∈ s.rest.head?, n.symbol ≠ .closeParen) ∧ Gives (argumentsFrom opened sum (s.rest.length + 1)) s es u := by
  rw [arguments, gives_peek_bind_iff]
  obtain ⟨rest, depth, operators⟩ := s
  constructor
  · intro given
    rcases rest with _ | ⟨⟨symbol, q⟩, tail⟩
    · exact .inr ⟨nofun, given⟩
    · cases symbol with
      | closeParen =>
        obtain ⟨rfl, rfl⟩ := gives_leave_pure_iff.mp given
        exact .inl ⟨q, tail, rfl, rfl, rfl⟩
      | _ => exact .inr ⟨by simp, given⟩
  · rintro (⟨q, tail, rfl, rfl, rfl⟩ | ⟨other, given⟩)
    · rfl
    · rcases rest with _ | ⟨⟨symbol, q⟩, tail⟩
      · exact given
      · cases symbol with
        | closeParen => exact absurd rfl (other _ rfl)
        | _ => exact given

theorem gives_group_iff : Gives (group opened sum) s e u ↔
    ∃ t q tail, Gives sum s e t ∧ t.rest = ⟨.closeParen, q⟩ :: tail ∧ t.past = u := by
  rw [group, gives_bind_iff]
  constructor
  · rintro ⟨inner, ⟨rest, depth, operators⟩, reads, onward⟩
    rw [gives_peek_bind_iff] at onward
    rcases rest with _ | ⟨⟨symbol, q⟩, tail⟩
    · exact absurd onward not_gives_fail
    · cases symbol with
      | closeParen =>
        obtain ⟨rfl, rfl⟩ := gives_leave_pure_iff.mp onward
        exact ⟨_, q, tail, reads, rfl, rfl⟩
      | _ => exact absurd onward not_gives_fail
  · rintro ⟨⟨_, depth, operators⟩, q, tail, reads, rfl, rfl⟩
    exact ⟨e, _, reads, rfl⟩

theorem gives_constant_iff : Gives (constant last name position) s e t ↔
    ∃ v, valueOfName? last name = some v ∧ .number v position = e ∧ s = t := by
  unfold constant
  cases valueOfName? last name with
  | some v => simp [gives_pure_iff]
  | none => simp [not_gives_fail]

theorem gives_named_iff : Gives (named last sum name position) s e u ↔
    (∃ q tail es, s.rest = ⟨.openParen, q⟩ :: tail ∧ Gives (arguments q sum) s.past es u ∧
        call name position es = .ok e) ∨
      (∀ n ∈ s.rest.head?, n.symbol ≠ .openParen) ∧
        ∃ v, valueOfName? last name = some v ∧ .number v position = e ∧ s = u := by
  rw [named, gives_peek_bind_iff, ← gives_constant_iff]
  obtain ⟨rest, depth, operators⟩ := s
  constructor
  · intro given
    rcases rest with _ | ⟨⟨symbol, q⟩, tail⟩
    · exact .inr ⟨nofun, given⟩
    · cases symbol with
      | openParen =>
        obtain ⟨es, t, reads, calls⟩ := gives_bind_iff.mp (gives_enter_bind_iff.mp given)
        obtain ⟨called, rfl⟩ := gives_ofExcept_iff.mp calls
        exact .inl ⟨q, tail, es, rfl, reads, called⟩
      | _ => exact .inr ⟨by simp, given⟩
  · rintro (⟨q, tail, es, rfl, reads, called⟩ | ⟨other, given⟩)
    · have onward : Gives (arguments q sum >>= fun es => ofExcept (call name position es))
          (Progress.past ⟨⟨.openParen, q⟩ :: tail, depth, operators⟩) e u :=
        gives_bind_iff.mpr ⟨es, u, reads, gives_ofExcept_iff.mpr ⟨called, rfl⟩⟩
      exact onward
    · rcases rest with _ | ⟨⟨symbol, q⟩, tail⟩
      · exact given
      · cases symbol with
        | openParen => exact absurd rfl (other _ rfl)
        | _ => exact given

end Parentheses

section Factors

variable {last : Value} {factor sum : Parser Expr} {e : Expr} {position depth operators : Nat} {tail : List Token}

theorem gives_factorOf_minus_iff :
    Gives (factorOf last factor sum) ⟨⟨.minus, position⟩ :: tail, depth, operators⟩ e u ↔
      ∃ operand, Gives factor ⟨tail, depth, operators⟩ operand u ∧ .negation operand position = e := by
  rw [factorOf, gives_peek_bind_iff]
  simp only [List.head?_cons]
  rw [gives_advance_bind_iff, gives_bind_iff]
  constructor
  · rintro ⟨operand, t, reads, given⟩
    obtain ⟨rfl, rfl⟩ := gives_pure_iff.mp given
    exact ⟨operand, reads, rfl⟩
  · rintro ⟨operand, reads, rfl⟩
    exact ⟨operand, u, reads, rfl⟩

theorem gives_factorOf_openParen_iff :
    Gives (factorOf last factor sum) ⟨⟨.openParen, position⟩ :: tail, depth, operators⟩ e u ↔
      Gives (group position sum) ⟨tail, depth, operators⟩ e u := Iff.rfl

theorem gives_factorOf_name_iff {name : String} :
    Gives (factorOf last factor sum) ⟨⟨.name name, position⟩ :: tail, depth, operators⟩ e u ↔
      Gives (named last sum name position) ⟨tail, depth, operators⟩ e u := Iff.rfl

end Factors

end Calculator.Expr
