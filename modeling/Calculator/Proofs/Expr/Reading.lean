import Calculator.Proofs.Expr.Counters

namespace Calculator.Expr

open Parsing

def Stops (extends? : Symbol → Bool) (tokens : List Token) : Prop :=
  ∀ t ∈ tokens.head?, extends? t.symbol = false

theorem stops_cons {extends? : Symbol → Bool} {t : Token} {rest : List Token} (other : extends? t.symbol = false) :
    Stops extends? (t :: rest) := by
  intro first isFirst
  cases isFirst
  exact other

/-- At a depth, the parser reads the words of a relation exactly, before tokens that do not extend them. -/
structure Recognises {α : Type} (depth : Nat) (parser : Parser α) (words : List Token → α → Prop)
    (count : α → Nat) (extends? : Symbol → Bool) : Prop where
  counts : Counts count parser
  sound {s t : Progress} {a : α} :
    s.depth = depth → Gives parser s a t → ∃ word, s.rest = word ++ t.rest ∧ words word a
  complete {word : List Token} {a : α} (rest : List Token) (operators : Nat) :
    words word a → operators + count a ≤ maxOperators → Stops extends? rest →
      Gives parser ⟨word ++ rest, depth, operators⟩ a ⟨rest, depth, operators + count a⟩

variable {α : Type} {depth : Nat}

theorem Recognises.congr {parser : Parser α} {words words' : List Token → α → Prop}
    {count : α → Nat} {extends? : Symbol → Bool} (h : Recognises depth parser words count extends?)
    (same : ∀ word value, words word value ↔ words' word value) :
    Recognises depth parser words' count extends? := by
  have equal : words = words' := by
    funext word value
    exact propext (same word value)
  exact equal ▸ h

theorem nested_recognises {parser : Parser α} {words : List Token → α → Prop} {count : α → Nat}
    {extends? : Symbol → Bool} (room : depth < maxNesting)
    (recognises : Recognises (depth + 1) parser words count extends?) :
    Recognises depth (nested parser) words count extends? where
  counts := nested_counts recognises.counts
  sound {s t a} level given := by
    obtain ⟨-, u, inner, rfl⟩ := gives_nested_iff.mp given
    exact recognises.sound (s := s.deeper) (t := u) (congrArg (· + 1) level) inner
  complete rest operators inWords limit stops :=
    gives_nested_iff.mpr ⟨room, _, recognises.complete rest operators inWords limit stops, rfl⟩

theorem nested_recognises_full {parser : Parser α} {count : α → Nat} {extends? : Symbol → Bool}
    (full : ¬ depth < maxNesting) (counts : Counts count parser) :
    Recognises depth (nested parser) (fun _ _ => False) count extends? where
  counts := nested_counts counts
  sound level given := absurd (level ▸ (gives_nested_iff.mp given).1) full
  complete _ _ impossible := impossible.elim

inductive Chain (accepts : Operator → Bool) (operand : List Token → Expr → Prop) :
    List Token → Expr → Prop
  | single {word e} (only : operand word e) : Chain accepts operand word e
  | more {word word' left right op} {t : Token} (before : Chain accepts operand word left)
      (accepted : t.symbol.operator?.filter accepts = some op) (last : operand word' right) :
      Chain accepts operand (word ++ t :: word') (.binary op left right t.position)

def extendsChain (accepts : Operator → Bool) (s : Symbol) : Bool := (s.operator?.filter accepts).isSome

section Chains

variable {accepts : Operator → Bool} {operand : Parser Expr} {words : List Token → Expr → Prop}
  {extends? : Symbol → Bool} (recognises : Recognises depth operand words operatorCount extends?)
include recognises

theorem chainFrom_sound {fuel : Nat} {left e : Expr} {s t : Progress} {word : List Token} (level : s.depth = depth)
    (before : Chain accepts words word left) (given : Gives (chainFrom accepts operand fuel left) s e t) :
    ∃ more, s.rest = more ++ t.rest ∧ Chain accepts words (word ++ more) e := by
  induction fuel generalizing left s word with
  | zero =>
    obtain ⟨rfl, rfl⟩ := gives_pure_iff.mp given
    exact ⟨[], rfl, by rwa [List.append_nil]⟩
  | succ fuel ih =>
    rcases refused_or_accepted accepts s.rest with refused | ⟨next, tail, op, following, accepted⟩
    · obtain ⟨rfl, rfl⟩ := (gives_chainFrom_of_refused refused).mp given
      exact ⟨[], rfl, by rwa [List.append_nil]⟩
    · obtain ⟨-, right, u, reads, onward⟩ := (gives_chainFrom_of_accepted following accepted).mp given
      obtain ⟨taken, split, inWords⟩ := recognises.sound (s := s.counted.past) level reads
      have level' : u.depth = depth := (recognises.counts _ _ _ reads).depth.trans level
      obtain ⟨more, split', chain⟩ := ih level' (.more before accepted inWords) onward
      have behind : tail = taken ++ u.rest := by
        simpa [Progress.past, Progress.counted, following] using split
      refine ⟨next :: taken ++ more, ?_, by simpa using chain⟩
      rw [following, behind, split', List.append_assoc, List.cons_append]

omit recognises in
theorem chainFrom_stops {fuel : Nat} {left : Expr} {s : Progress} (stops : Stops (extendsChain accepts) s.rest) :
    Gives (chainFrom accepts operand fuel left) s left s := by
  refine (gives_chainFrom_of_refused fun n first => ?_).mpr ⟨rfl, rfl⟩
  exact Option.not_isSome_iff_eq_none.mp (by simpa only [extendsChain, Bool.not_eq_true] using stops n first)

/-- A chain is read to its end before the parser looks at what follows it, whatever fuel is left then. -/
theorem chain_reaches (apart : ∀ s, extendsChain accepts s = true → extends? s = false)
    {word following : List Token} {left e : Expr} {operators : Nat} {u : Progress}
    (inChain : Chain accepts words word left) (limit : operators + left.operatorCount ≤ maxOperators)
    (stops : Stops extends? following)
    (continues : ∀ fuel, following.length < fuel →
      Gives (chainFrom accepts operand fuel left) ⟨following, depth, operators + left.operatorCount⟩ e u) :
    Gives (chain accepts operand) ⟨word ++ following, depth, operators⟩ e u := by
  -- The chain is left-nested: its last operand belongs to what follows the chain before it.
  induction inChain generalizing following with
  | single only =>
    exact gives_chain_iff.mpr ⟨_, _, recognises.complete following operators only limit stops,
      continues _ (Nat.lt_succ_self _)⟩
  | @more word word' left right op t before accepted last ih =>
    simp only [operatorCount] at limit continues
    rw [List.append_assoc, List.cons_append]
    refine ih (by omega) (stops_cons (apart _ (by simp [extendsChain, accepted]))) fun fuel enough => ?_
    obtain ⟨fuel, rfl⟩ : ∃ n, fuel = n + 1 := ⟨fuel - 1, by omega⟩
    have reads := recognises.complete following (operators + left.operatorCount + 1) last (by omega) stops
    have sameCount : operators + left.operatorCount + 1 + right.operatorCount =
        operators + (left.operatorCount + right.operatorCount + 1) := by omega
    rw [sameCount] at reads
    have room : operators + left.operatorCount < maxOperators := by omega
    simp only [List.length_cons, List.length_append] at enough
    exact (gives_chainFrom_of_accepted rfl accepted).mpr ⟨room, right, _, reads, continues fuel (by omega)⟩

theorem chain_recognises (apart : ∀ s, extendsChain accepts s = true → extends? s = false) :
    Recognises depth (chain accepts operand) (Chain accepts words) operatorCount
      (fun s => extends? s || extendsChain accepts s) where
  counts := chain_counts recognises.counts
  sound {s t e} level given := by
    obtain ⟨first, u, reads, onward⟩ := gives_chain_iff.mp given
    obtain ⟨word, split, inWords⟩ := recognises.sound level reads
    have level' : u.depth = depth := (recognises.counts _ _ _ reads).depth.trans level
    obtain ⟨more, split', inChain⟩ := chainFrom_sound recognises level' (.single inWords) onward
    exact ⟨word ++ more, by rw [split, split', List.append_assoc], inChain⟩
  complete {word e} rest operators inChain limit stops := by
    have apartFirst : Stops extends? rest := fun t first => (Bool.or_eq_false_iff.mp (stops t first)).1
    have apartLast : Stops (extendsChain accepts) rest :=
      fun t first => (Bool.or_eq_false_iff.mp (stops t first)).2
    exact chain_reaches recognises apart inChain limit apartFirst fun _ _ => chainFrom_stops apartLast

end Chains

inductive Listed (argument : List Token → Expr → Prop) : List Token → List Expr → Prop
  | last {word e} {t : Token} (only : argument word e) (closes : t.symbol = .closeParen) :
      Listed argument (word ++ [t]) [e]
  | more {word word' e others} {t : Token} (first : argument word e) (comma : t.symbol = .comma)
      (following : Listed argument word' others) : Listed argument (word ++ t :: word') (e :: others)

section Arguments

variable {opened : Nat} {argument : Parser Expr} {words : List Token → Expr → Prop}
  {extends? : Symbol → Bool} (recognises : Recognises depth argument words operatorCount extends?)
include recognises

theorem argumentsFrom_sound {fuel : Nat} {s t : Progress} {es : List Expr} (level : s.depth = depth)
    (given : Gives (argumentsFrom opened argument fuel) s es t) :
    ∃ word, s.rest = word ++ t.rest ∧ Listed words word es := by
  induction fuel generalizing s es with
  | zero => exact absurd given (not_gives_fail (s := s))
  | succ fuel ih =>
    obtain ⟨first, u, next, tail, reads, following, behind⟩ := gives_argumentsFrom_iff.mp given
    obtain ⟨word, split, inWords⟩ := recognises.sound level reads
    have level' : u.depth = depth := (recognises.counts _ _ _ reads).depth.trans level
    rw [following] at split
    have past : u.past.rest = tail := by rw [Progress.past, following, List.drop_one, List.tail_cons]
    rcases behind with ⟨others, comma, listed, rfl⟩ | ⟨closes, rfl, rfl⟩
    · obtain ⟨more, split', listed⟩ := ih (s := u.past) level' listed
      rw [past] at split'
      refine ⟨word ++ next :: more, ?_, .more inWords comma listed⟩
      rw [split, split', List.append_assoc, List.cons_append]
    · exact ⟨word ++ [next], by rw [split, past, List.append_assoc, List.singleton_append], .last inWords closes⟩

theorem argumentsFrom_complete (opened : Nat) (beforeComma : extends? .comma = false)
    (beforeClosing : extends? .closeParen = false) {word : List Token} {es : List Expr} (rest : List Token)
    (fuel operators : Nat) (listed : Listed words word es) (limit : operators + operatorCounts es ≤ maxOperators)
    (enough : word.length < fuel) :
    Gives (argumentsFrom opened argument fuel) ⟨word ++ rest, depth, operators⟩ es
      ⟨rest, depth, operators + operatorCounts es⟩ := by
  induction listed generalizing operators fuel with
  | @last word e t only closes =>
    obtain ⟨fuel, rfl⟩ : ∃ n, fuel = n + 1 := ⟨fuel - 1, by omega⟩
    have reads := recognises.complete (t :: rest) operators only limit (stops_cons (by rw [closes, beforeClosing]))
    rw [List.append_assoc, List.singleton_append]
    exact gives_argumentsFrom_iff.mpr ⟨e, _, t, rest, reads, rfl, .inr ⟨closes, rfl, rfl⟩⟩
  | @more word word' e others t first comma following ih =>
    obtain ⟨fuel, rfl⟩ : ∃ n, fuel = n + 1 := ⟨fuel - 1, by omega⟩
    rw [operatorCounts] at limit ⊢
    simp only [List.length_append, List.length_cons] at enough
    have reads := recognises.complete (t :: (word' ++ rest)) operators first (by omega)
      (stops_cons (by rw [comma, beforeComma]))
    have continues := ih fuel (operators + e.operatorCount) (by omega) (by omega)
    rw [Nat.add_assoc] at continues
    rw [List.append_assoc, List.cons_append]
    exact gives_argumentsFrom_iff.mpr ⟨e, _, t, word' ++ rest, reads, rfl, .inl ⟨others, comma, continues, rfl⟩⟩

def Enclosed (argument : List Token → Expr → Prop) (word : List Token) (es : List Expr) : Prop :=
  (∃ p, word = [⟨.closeParen, p⟩] ∧ es = []) ∨ Listed argument word es

theorem arguments_recognises (opened : Nat) (beforeComma : extends? .comma = false)
    (beforeClosing : extends? .closeParen = false)
    (notClosing : ∀ word e, words word e → ∃ t tail, word = t :: tail ∧ t.symbol ≠ .closeParen) :
    Recognises depth (arguments opened argument) (Enclosed words) operatorCounts (fun _ => false) where
  counts := arguments_counts opened recognises.counts
  sound {s t es} level given := by
    rcases gives_arguments_iff.mp given with ⟨q, tail, following, rfl, rfl⟩ | ⟨-, given⟩
    · refine ⟨[⟨.closeParen, q⟩], ?_, .inl ⟨q, rfl, rfl⟩⟩
      rw [Progress.past, following]
      rfl
    · obtain ⟨word, split, listed⟩ := argumentsFrom_sound recognises level given
      exact ⟨word, split, .inr listed⟩
  complete {word es} rest operators enclosed limit _ := by
    rcases enclosed with ⟨p, rfl, rfl⟩ | listed
    · exact gives_arguments_iff.mpr (.inl ⟨p, rest, rfl, rfl, rfl⟩)
    · have begins : ∃ t tail, word = t :: tail ∧ t.symbol ≠ .closeParen := by
        cases listed with
        | last only _ | more only _ _ =>
          obtain ⟨t, tail, rfl, other⟩ := notClosing _ _ only
          exact ⟨t, _, rfl, other⟩
      obtain ⟨t, tail, rfl, other⟩ := begins
      have enough : (t :: tail).length < (t :: tail ++ rest).length + 1 := by simp only [List.length_append]; omega
      have complete := argumentsFrom_complete recognises opened beforeComma beforeClosing rest _ operators listed
        limit enough
      exact gives_arguments_iff.mpr (.inr ⟨by simpa using other, complete⟩)

end Arguments

theorem group_recognises (opened : Nat) {sum : Parser Expr} {words : List Token → Expr → Prop}
    {extends? : Symbol → Bool} (recognises : Recognises depth sum words operatorCount extends?)
    (beforeClosing : extends? .closeParen = false) :
    Recognises depth (group opened sum)
      (fun word e => ∃ inner p, word = inner ++ [⟨.closeParen, p⟩] ∧ words inner e) operatorCount
      (fun _ => false) where
  counts := group_counts opened recognises.counts
  sound {s u e} level given := by
    obtain ⟨t, q, tail, reads, following, rfl⟩ := gives_group_iff.mp given
    obtain ⟨word, split, inWords⟩ := recognises.sound level reads
    refine ⟨word ++ [⟨.closeParen, q⟩], ?_, word, q, rfl, inWords⟩
    rw [split, Progress.past, following, List.append_assoc]
    rfl
  complete {word e} rest operators := by
    rintro ⟨inner, p, rfl, inWords⟩ limit -
    rw [List.append_assoc, List.singleton_append]
    exact gives_group_iff.mpr ⟨_, p, rest,
      recognises.complete (⟨.closeParen, p⟩ :: rest) operators inWords limit (stops_cons beforeClosing), rfl, rfl⟩

end Calculator.Expr
