import Calculator.Expr.OfTokens
import Mathlib.Data.List.Forall2

namespace Calculator

inductive Together {ε α β : Type} (errors : ε → ε → Prop) (values : α → β → Prop) :
    Except ε α → Except ε β → Prop
  | ok {a b} (related : values a b) : Together errors values (.ok a) (.ok b)
  | error {e f} (related : errors e f) : Together errors values (.error e) (.error f)

theorem Together.bind {ε α β α' β' : Type} {errors : ε → ε → Prop} {values : α → β → Prop}
    {values' : α' → β' → Prop} {x : Except ε α} {y : Except ε β} {f : α → Except ε α'}
    {g : β → Except ε β'} (first : Together errors values x y)
    (next : ∀ a b, x = .ok a → values a b → Together errors values' (f a) (g b)) :
    Together errors values' (x >>= f) (y >>= g) := by
  cases first with
  | ok related => exact next _ _ rfl related
  | error related => exact .error related

theorem Together.map {ε α β α' β' : Type} {errors : ε → ε → Prop} {values : α → β → Prop}
    {values' : α' → β' → Prop} {x : Except ε α} {y : Except ε β} {f : α → α'} {g : β → β'}
    (first : Together errors values x y) (next : ∀ a b, values a b → values' (f a) (g b)) :
    Together errors values' (x.map f) (y.map g) := by
  cases first with
  | ok related => exact .ok (next _ _ related)
  | error related => exact .error related

def Symbol.ofValue : Value → Symbol
  | .integer n => .integer n
  | .real x => .real x

namespace Expr

inductive Alike (places : Nat → Nat → Prop) : Expr → Expr → Prop
  | number {v p q} (placed : places p q) : Alike places (.number v p) (.number v q)
  | binary {op left left' right right' p q} (inLeft : Alike places left left')
      (inRight : Alike places right right') (placed : places p q) :
      Alike places (.binary op left right p) (.binary op left' right' q)
  | negation {e e' p q} (operand : Alike places e e') (placed : places p q) :
      Alike places (.negation e p) (.negation e' q)
  | call0 {name p q} (placed : places p q) : Alike places (.call0 name p) (.call0 name q)
  | call1 {name e e' p q} (argument : Alike places e e') (placed : places p q) :
      Alike places (.call1 name e p) (.call1 name e' q)
  | call2 {name e e' f f' p q} (first : Alike places e e') (second : Alike places f f')
      (placed : places p q) : Alike places (.call2 name e f p) (.call2 name e' f' q)

theorem Alike.eq {e e' : Expr} (alike : Alike Eq e e') : e = e' := by
  induction alike with
  | number placed | call0 placed => rw [placed]
  | binary _ _ placed left right => rw [left, right, placed]
  | negation _ placed operand => rw [operand, placed]
  | call1 _ placed argument => rw [argument, placed]
  | call2 _ _ placed first second => rw [first, second, placed]

theorem Alike.imp {places places' : Nat → Nat → Prop} (weaker : ∀ p q, places p q → places' p q) {e e' : Expr}
    (alike : Alike places e e') : Alike places' e e' := by
  induction alike with
  | number placed => exact .number (weaker _ _ placed)
  | binary _ _ placed left right => exact .binary left right (weaker _ _ placed)
  | negation _ placed operand => exact .negation operand (weaker _ _ placed)
  | call0 placed => exact .call0 (weaker _ _ placed)
  | call1 _ placed argument => exact .call1 argument (weaker _ _ placed)
  | call2 _ _ placed first second => exact .call2 first second (weaker _ _ placed)

/-- A name of the last answer that is not called. -/
def isBareAnswer (t : Token) (following : List Token) : Bool :=
  match t.symbol with
  | .name name => Text.foldName name = "ans" && !(following.head?.any fun next => next.symbol = .openParen)
  | _ => false

/-- The symbols that make a parser with the last answer `last'` turn the way a token does with the last
    answer `last`: the token's own, and for a bare name of the last answer that answer. -/
inductive SameTurn (last last' : Value) (t : Token) (following : List Token) : Symbol → Prop
  | own (answers : isBareAnswer t following = true → last' = last) :
      SameTurn last last' t following t.symbol
  | settled (bare : isBareAnswer t following = true) : SameTurn last last' t following (.ofValue last)

/-- Tokens, places and reasons are related so that parsers with two last answers stay in step. The parsers
    do not read past an end, and nothing is asked of the tokens there. -/
structure Lockstep (last last' : Value) where
  tokens : List Token → List Token → Prop
  places : Nat → Nat → Prop
  reasons : ParseError.Reason → ParseError.Reason → Prop
  reason_self (reason : ParseError.Reason) : reasons reason reason
  exhausted {tokens' : List Token} (related : tokens [] tokens') : tokens' = [] ∧ places 0 0
  next {t : Token} {rest tokens' : List Token} (related : tokens (t :: rest) tokens') :
    ∃ t' rest', tokens' = t' :: rest' ∧ places t.position t'.position ∧
      SameTurn last last' t rest t'.symbol ∧
      reasons (.trailingTokens t.symbol) (.trailingTokens t'.symbol) ∧
      reasons (.unexpectedInArguments t.symbol) (.unexpectedInArguments t'.symbol) ∧
      (t.symbol ≠ .done → tokens rest rest')

section Turns

variable {last last' : Value} {t : Token} {s : Symbol} {following : List Token}

theorem isBareAnswer_eq_true_iff : isBareAnswer t following = true ↔
    ∃ name, t.symbol = .name name ∧ Text.foldName name = "ans" ∧
      ∀ next ∈ following.head?, next.symbol ≠ .openParen := by
  obtain ⟨symbol, position⟩ := t
  cases symbol with
  | name name => cases following <;> simp [isBareAnswer]
  | _ => simp [isBareAnswer]

theorem SameTurn.eq_or_settled (turn : SameTurn last last' t following s) :
    s = t.symbol ∨ ∃ name, t.symbol = .name name ∧ s = .ofValue last := by
  cases turn with
  | own => exact .inl rfl
  | settled bare =>
    obtain ⟨name, named, -⟩ := isBareAnswer_eq_true_iff.mp bare
    exact .inr ⟨name, named, rfl⟩

theorem SameTurn.operator?_eq (turn : SameTurn last last' t following s) :
    s.operator? = t.symbol.operator? := by
  rcases turn.eq_or_settled with rfl | ⟨name, named, rfl⟩
  · rfl
  · rw [named]
    cases last <;> rfl

theorem SameTurn.eq_iff (turn : SameTurn last last' t following s) (kept : Symbol)
    (unnamed : ∀ name, kept ≠ .name name) (unnumbered : ∀ v, kept ≠ .ofValue v) :
    s = kept ↔ t.symbol = kept := by
  rcases turn.eq_or_settled with rfl | ⟨name, named, rfl⟩
  · rfl
  · rw [named]
    exact ⟨fun same => absurd same.symm (unnumbered last), fun same => absurd same.symm (unnamed name)⟩

theorem SameTurn.openParen_iff (turn : SameTurn last last' t following s) :
    s = .openParen ↔ t.symbol = .openParen := turn.eq_iff .openParen nofun fun v => by cases v <;> nofun

end Turns

theorem ne_done_of_operator? {s : Symbol} {op : Operator} (joins : s.operator? = some op) : s ≠ .done := by
  rintro rfl
  cases joins

theorem valueOfName?_of_not_answer {last last' : Value} {name : String}
    (other : Text.foldName name = "ans" → last' = last) :
    valueOfName? last' name = valueOfName? last name := by
  by_cases answer : Text.foldName name = "ans"
  · rw [other answer]
  · unfold valueOfName?
    split <;> simp_all

namespace Lockstep

open Parsing

variable {last last' : Value} (R : Lockstep last last')

def Errors (e f : ParseError) : Prop := R.reasons e.reason f.reason ∧ R.places e.position f.position

structure Abreast (s s' : Progress) : Prop where
  tokens : R.tokens s.rest s'.rest
  depth : s.depth = s'.depth
  operators : s.operators = s'.operators

/-- Two values and the progress made with them from two others, of which no tokens were given back. -/
structure Onward {α : Type} (values : α → α → Prop) (s s' : Progress) (r r' : α × Progress) : Prop where
  alike : values r.1 r'.1
  abreast : R.Abreast r.2 r'.2
  left : r.2.rest.length ≤ s.rest.length
  left' : r'.2.rest.length ≤ s'.rest.length

def Goes {α : Type} (values : α → α → Prop) (s s' : Progress) : (x x' : Except ParseError (α × Progress)) → Prop :=
  Together R.Errors (R.Onward values s s')

def InStep {α : Type} (values : α → α → Prop) (parser parser' : Parser α) : Prop :=
  ∀ ⦃s s' : Progress⦄, R.Abreast s s' → R.Goes values s s' (parser s) (parser' s')

variable {R} {α β : Type} {values : α → α → Prop} {values' : β → β → Prop} {s s' : Progress}

theorem fails {reason : ParseError.Reason} {p q : Nat} (placed : R.places p q) :
    R.Goes values s s' (.error ⟨reason, p⟩) (.error ⟨reason, q⟩) := .error ⟨R.reason_self reason, placed⟩

theorem gives {a a' : α} (alike : values a a') (abreast : R.Abreast s s') :
    R.Goes values s s' (.ok (a, s)) (.ok (a', s')) := .ok ⟨alike, abreast, Nat.le_refl _, Nat.le_refl _⟩

theorem Goes.trans {t t' : Progress} {x x' : Except ParseError (α × Progress)} (goes : R.Goes values t t' x x')
    (left : t.rest.length ≤ s.rest.length) (left' : t'.rest.length ≤ s'.rest.length) : R.Goes values s s' x x' := by
  cases goes with
  | error related => exact .error related
  | ok onward =>
    exact .ok ⟨onward.alike, onward.abreast, Nat.le_trans onward.left left, Nat.le_trans onward.left' left'⟩

theorem Goes.bind {p p' : Parser α} {f f' : α → Parser β} (first : R.Goes values s s' (p s) (p' s'))
    (next : ∀ a a' t t', values a a' → R.Abreast t t' → t.rest.length ≤ s.rest.length →
      t'.rest.length ≤ s'.rest.length → R.Goes values' t t' (f a t) (f' a' t')) :
    R.Goes values' s s' ((p >>= f) s) ((p' >>= f') s') :=
  Together.bind first fun _ _ _ onward =>
    (next _ _ _ _ onward.alike onward.abreast onward.left onward.left').trans onward.left onward.left'

theorem length_past_le (s : Progress) : s.past.rest.length ≤ s.rest.length := by
  rw [Progress.past, List.length_drop]
  exact Nat.sub_le _ _

section Steps

theorem Goes.peek {f f' : Option Token → Parser β}
    (goes : R.Goes values' s s' (f s.rest.head? s) (f' s'.rest.head? s')) :
    R.Goes values' s s' ((peek >>= f) s) ((peek >>= f') s') := goes

variable {f f' : Unit → Parser β}

theorem Goes.advance (goes : R.Goes values' s.past s'.past (f () s.past) (f' () s'.past)) :
    R.Goes values' s s' ((advance >>= f) s) ((advance >>= f') s') :=
  goes.trans (length_past_le s) (length_past_le s')

theorem Goes.enter {o o' : Opening} (goes : R.Goes values' s.past s'.past (f () s.past) (f' () s'.past)) :
    R.Goes values' s s' ((enter o >>= f) s) ((enter o' >>= f') s') :=
  goes.trans (length_past_le s) (length_past_le s')

theorem Goes.leave (goes : R.Goes values' s.past s'.past (f () s.past) (f' () s'.past)) :
    R.Goes values' s s' ((leave >>= f) s) ((leave >>= f') s') :=
  goes.trans (length_past_le s) (length_past_le s')

theorem Goes.count {p q : Nat} (placed : R.places p q) (same : s.operators = s'.operators)
    (goes : R.Goes values' s.counted s'.counted (f () s.counted) (f' () s'.counted)) :
    R.Goes values' s s' ((countOperator p >>= f) s) ((countOperator q >>= f') s') := by
  change R.Goes values' s s' ((countOperator p : Parser Unit) s >>= fun r => f r.1 r.2)
    ((countOperator q : Parser Unit) s' >>= fun r => f' r.1 r.2)
  by_cases room : s.operators < maxOperators
  · rw [Parser.countOperator_of_room room, Parser.countOperator_of_room (same ▸ room)]
    exact goes.trans (Nat.le_refl _) (Nat.le_refl _)
  · rw [Parser.countOperator_of_full room, Parser.countOperator_of_full (same ▸ room)]
    exact fails placed

end Steps

theorem firstPosition_places {tokens tokens' : List Token} (related : R.tokens tokens tokens') :
    R.places (firstPosition tokens) (firstPosition tokens') := by
  cases tokens with
  | nil =>
    obtain ⟨rfl, placed⟩ := R.exhausted related
    exact placed
  | cons t rest =>
    obtain ⟨t', rest', rfl, placed, -⟩ := R.next related
    exact placed

theorem nested_inStep {p p' : Parser α} (step : R.InStep values p p') :
    R.InStep values (nested p) (nested p') := by
  intro s s' abreast
  obtain ⟨related, depth, operators⟩ := abreast
  by_cases room : s.depth < maxNesting
  · rw [Parser.nested_of_room p room, Parser.nested_of_room p' (depth ▸ room)]
    have deeper : R.Abreast s.deeper s'.deeper := ⟨related, congrArg (· + 1) depth, operators⟩
    refine (step deeper).map fun r r' onward => ?_
    obtain ⟨alike, ⟨related, depth, operators⟩, left, left'⟩ := onward
    exact ⟨alike, ⟨related, congrArg (· - 1) depth, operators⟩, left, left'⟩
  · rw [Parser.nested_of_full p room, Parser.nested_of_full p' (depth ▸ room)]
    exact fails (firstPosition_places related)

section Chains

variable {accepts : Operator → Bool} {operand operand' : Parser Expr}

theorem chainFrom_inStep (step : R.InStep (Alike R.places) operand operand') {fuel fuel' : Nat}
    {left left' : Expr} (abreast : R.Abreast s s') (alike : Alike R.places left left')
    (enough : s.rest.length < fuel) (enough' : s'.rest.length < fuel') :
    R.Goes (Alike R.places) s s' (chainFrom accepts operand fuel left s)
      (chainFrom accepts operand' fuel' left' s') := by
  induction fuel generalizing fuel' left left' s s' with
  | zero => exact absurd enough (Nat.not_lt_zero _)
  | succ fuel ih =>
    obtain ⟨fuel', rfl⟩ : ∃ n, fuel' = n + 1 := ⟨fuel' - 1, by omega⟩
    obtain ⟨rest, depth, operators⟩ := s
    obtain ⟨rest', _, _⟩ := s'
    obtain ⟨related, rfl, rfl⟩ := abreast
    rw [chainFrom, chainFrom]
    refine Goes.peek ?_
    cases rest with
    | nil =>
      obtain ⟨rfl, -⟩ := R.exhausted related
      exact gives alike ⟨related, rfl, rfl⟩
    | cons t rest =>
      obtain ⟨t', rest', rfl, placed, turn, -, -, onward⟩ := R.next related
      simp only [List.head?_cons, turn.operator?_eq]
      cases accepted : t.symbol.operator?.filter accepts with
      | none => exact gives alike ⟨related, rfl, rfl⟩
      | some op =>
        have unended := ne_done_of_operator? (Option.eq_some_of_filter_eq_some accepted)
        have ahead : R.Abreast ⟨rest, depth, operators + 1⟩ ⟨rest', depth, operators + 1⟩ :=
          ⟨onward unended, rfl, rfl⟩
        refine Goes.count placed rfl (Goes.advance ((step ahead).bind ?_))
        intro right right' t t' alikeRight abreast behind behind'
        exact ih abreast (.binary alike alikeRight placed) (Nat.lt_of_le_of_lt behind (Nat.lt_of_succ_lt_succ enough))
          (Nat.lt_of_le_of_lt behind' (Nat.lt_of_succ_lt_succ enough'))

theorem chain_inStep (step : R.InStep (Alike R.places) operand operand') :
    R.InStep (Alike R.places) (chain accepts operand) (chain accepts operand') := by
  intro s s' abreast
  refine (step abreast).bind ?_
  intro first first' t t' alike abreast _ _
  exact chainFrom_inStep step abreast alike (Nat.lt_succ_self _) (Nat.lt_succ_self _)

theorem sumOf_inStep {power power' : Parser Expr} (step : R.InStep (Alike R.places) power power') :
    R.InStep (Alike R.places) (sumOf power) (sumOf power') := chain_inStep (chain_inStep step)

theorem powerOf_inStep {factor factor' exponent exponent' : Parser Expr}
    (factorStep : R.InStep (Alike R.places) factor factor')
    (exponentStep : R.InStep (Alike R.places) exponent exponent') :
    R.InStep (Alike R.places) (powerOf factor exponent) (powerOf factor' exponent') := by
  intro s s' abreast
  refine (factorStep abreast).bind ?_
  rintro base base' ⟨rest, depth, operators⟩ ⟨rest', _, _⟩ alike ⟨related, rfl, rfl⟩ - -
  refine Goes.peek ?_
  cases rest with
  | nil =>
    obtain ⟨rfl, -⟩ := R.exhausted related
    exact gives alike ⟨related, rfl, rfl⟩
  | cons t rest =>
    obtain ⟨t', rest', rfl, placed, turn, -, -, onward⟩ := R.next related
    simp only [List.head?_cons, turn.operator?_eq]
    by_cases isPower : t.symbol.operator? = some .pow
    · have ahead : R.Abreast ⟨rest, depth, operators + 1⟩ ⟨rest', depth, operators + 1⟩ :=
        ⟨onward (ne_done_of_operator? isPower), rfl, rfl⟩
      simp only [if_pos isPower]
      refine Goes.count placed rfl (Goes.advance ((exponentStep ahead).bind ?_))
      intro right right' t t' alikeRight abreast _ _
      exact gives (.binary alike alikeRight placed) abreast
    · simp only [if_neg isPower]
      exact gives alike ⟨related, rfl, rfl⟩

end Chains

section Arguments

variable {argument argument' : Parser Expr} {opened opened' : Nat}

theorem argumentsFrom_inStep (step : R.InStep (Alike R.places) argument argument')
    (placed : R.places opened opened') {fuel fuel' : Nat} (abreast : R.Abreast s s')
    (enough : s.rest.length < fuel) (enough' : s'.rest.length < fuel') :
    R.Goes (List.Forall₂ (Alike R.places)) s s' (argumentsFrom opened argument fuel s)
      (argumentsFrom opened' argument' fuel' s') := by
  induction fuel generalizing fuel' s s' with
  | zero => exact absurd enough (Nat.not_lt_zero _)
  | succ fuel ih =>
    obtain ⟨fuel', rfl⟩ : ∃ n, fuel' = n + 1 := ⟨fuel' - 1, by omega⟩
    rw [argumentsFrom, argumentsFrom]
    refine (step abreast).bind ?_
    rintro first first' ⟨rest, depth, operators⟩ ⟨rest', _, _⟩ alike ⟨related, rfl, rfl⟩ left left'
    refine Goes.peek ?_
    cases rest with
    | nil =>
      obtain ⟨rfl, -⟩ := R.exhausted related
      exact fails placed
    | cons t rest =>
      obtain ⟨⟨s, p⟩, rest', rfl, there, turn, -, found, onward⟩ := R.next related
      obtain ⟨symbol, q⟩ := t
      rcases turn.eq_or_settled with same | ⟨name, named, settled⟩
      · dsimp only at same
        subst same
        cases s with
        | comma =>
          have ahead : R.Abreast ⟨rest, depth, operators⟩ ⟨rest', depth, operators⟩ := ⟨onward nofun, rfl, rfl⟩
          have room : rest.length < fuel := Nat.lt_of_lt_of_le left (Nat.le_of_lt_succ enough)
          have room' : rest'.length < fuel' := Nat.lt_of_lt_of_le left' (Nat.le_of_lt_succ enough')
          refine Goes.advance ((ih ahead room room').bind ?_)
          intro others others' t t' alikeOthers abreast _ _
          exact gives (.cons alike alikeOthers) abreast
        | closeParen => exact Goes.leave (gives (.cons alike .nil) ⟨onward nofun, rfl, rfl⟩)
        | done => exact fails placed
        | _ => exact .error ⟨found, there⟩
      -- the name in the one run and its number in the other are both out of place here
      · dsimp only at named settled
        subst named settled
        cases last <;> exact .error ⟨found, there⟩

theorem arguments_inStep (step : R.InStep (Alike R.places) argument argument')
    (placed : R.places opened opened') :
    R.InStep (List.Forall₂ (Alike R.places)) (arguments opened argument) (arguments opened' argument') := by
  intro s s' abreast
  have listed := argumentsFrom_inStep step placed abreast (Nat.lt_succ_self _) (Nat.lt_succ_self _)
  obtain ⟨rest, depth, operators⟩ := s
  obtain ⟨rest', _, _⟩ := s'
  obtain ⟨related, rfl, rfl⟩ := abreast
  rw [arguments, arguments]
  refine Goes.peek ?_
  cases rest with
  | nil =>
    obtain ⟨rfl, -⟩ := R.exhausted related
    exact listed
  | cons t rest =>
    obtain ⟨⟨s, p⟩, rest', rfl, -, turn, -, -, onward⟩ := R.next related
    obtain ⟨symbol, q⟩ := t
    rcases turn.eq_or_settled with same | ⟨name, named, settled⟩
    · dsimp only at same
      subst same
      cases s with
      | closeParen => exact Goes.leave (gives List.Forall₂.nil ⟨onward nofun, rfl, rfl⟩)
      | _ => exact listed
    · dsimp only at named settled
      subst named settled
      cases last <;> exact listed

theorem call_inStep {name : String} {p q : Nat} {es es' : List Expr} (placed : R.places p q)
    (alike : List.Forall₂ (Alike R.places) es es') :
    R.InStep (Alike R.places) (ofExcept (call name p es)) (ofExcept (call name q es')) := by
  intro s s' abreast
  cases alike with
  | nil => exact gives (.call0 placed) abreast
  | cons first others =>
    cases others with
    | nil => exact gives (.call1 first placed) abreast
    | cons second others =>
      cases others with
      | nil => exact gives (.call2 first second placed) abreast
      | cons _ _ => exact fails placed

end Arguments

section Factors

variable {sum sum' : Parser Expr} {p q : Nat}

theorem group_inStep (step : R.InStep (Alike R.places) sum sum') (placed : R.places p q) :
    R.InStep (Alike R.places) (group p sum) (group q sum') := by
  intro s s' abreast
  refine (step abreast).bind ?_
  rintro inner inner' ⟨rest, depth, operators⟩ ⟨rest', _, _⟩ alike ⟨related, rfl, rfl⟩ - -
  refine Goes.peek ?_
  cases rest with
  | nil =>
    obtain ⟨rfl, -⟩ := R.exhausted related
    exact fails placed
  | cons t rest =>
    obtain ⟨⟨s, p'⟩, rest', rfl, -, turn, -, -, onward⟩ := R.next related
    obtain ⟨symbol, q'⟩ := t
    rcases turn.eq_or_settled with same | ⟨name, named, settled⟩
    · dsimp only at same
      subst same
      cases s with
      | closeParen => exact Goes.leave (gives alike ⟨onward nofun, rfl, rfl⟩)
      | _ => exact fails placed
    · dsimp only at named settled
      subst named settled
      cases last <;> exact fails placed

theorem constant_inStep {name : String} (placed : R.places p q)
    (same : valueOfName? last' name = valueOfName? last name) :
    R.InStep (Alike R.places) (constant last name p) (constant last' name q) := by
  intro s s' abreast
  unfold constant
  rw [same]
  cases valueOfName? last name with
  | some v => exact gives (.number placed) abreast
  | none => exact fails placed

theorem constant_eq {name : String} {rest : List Token} (bare : isBareAnswer ⟨.name name, p⟩ rest = true) :
    (constant last name p : Parser Expr) = pure (.number last p) := by
  obtain ⟨_, named, answer, -⟩ := isBareAnswer_eq_true_iff.mp bare
  cases named
  simp only [constant, valueOfName?, answer]

theorem named_of_not_called {name : String} {s : Progress} (notCalled : ∀ t ∈ s.rest.head?, t.symbol ≠ .openParen) :
    named last sum name p s = (constant last name p : Parser Expr) s := by
  obtain ⟨rest, depth, operators⟩ := s
  rcases rest with _ | ⟨⟨symbol, q⟩, rest⟩
  · rfl
  · cases symbol with
    | openParen => exact absurd rfl (notCalled _ rfl)
    | _ => rfl

theorem not_called {rest rest' : List Token} (related : R.tokens rest rest')
    (notCalled : ∀ t ∈ rest.head?, t.symbol ≠ .openParen) : ∀ t ∈ rest'.head?, t.symbol ≠ .openParen := by
  cases rest with
  | nil =>
    obtain ⟨rfl, -⟩ := R.exhausted related
    exact notCalled
  | cons t rest =>
    obtain ⟨t', rest', rfl, -, turn, -⟩ := R.next related
    simpa [turn.openParen_iff] using notCalled

theorem named_inStep (step : R.InStep (Alike R.places) sum sum') {name : String} (placed : R.places p q)
    (abreast : R.Abreast s s') (answers : isBareAnswer ⟨.name name, p⟩ s.rest = true → last' = last) :
    R.Goes (Alike R.places) s s' (named last sum name p s) (named last' sum' name q s') := by
  by_cases called : ∃ opened inside, s.rest = ⟨.openParen, opened⟩ :: inside
  · obtain ⟨rest, depth, operators⟩ := s
    obtain ⟨rest', _, _⟩ := s'
    obtain ⟨related, rfl, rfl⟩ := abreast
    obtain ⟨opened, inside, rfl⟩ := called
    obtain ⟨⟨s, opened'⟩, inside', rfl, there, turn, -, -, onward⟩ := R.next related
    obtain rfl : s = .openParen := turn.openParen_iff.mpr rfl
    have ahead : R.Abreast ⟨inside, depth, operators⟩ ⟨inside', depth, operators⟩ := ⟨onward nofun, rfl, rfl⟩
    rw [named, named]
    refine Goes.peek (Goes.enter ?_)
    refine (arguments_inStep step there ahead).bind ?_
    intro es es' t t' alike abreast _ _
    exact call_inStep placed alike abreast
  · have notCalled : ∀ t ∈ s.rest.head?, t.symbol ≠ .openParen := by
      intro t first opens
      obtain ⟨_ | ⟨t, rest⟩, depth, operators⟩ := s
      · cases first
      · cases first
        exact called ⟨_, _, by rw [← opens]⟩
    have sameValue : valueOfName? last' name = valueOfName? last name :=
      valueOfName?_of_not_answer fun answer =>
        answers (isBareAnswer_eq_true_iff.mpr ⟨name, rfl, answer, notCalled⟩)
    rw [named_of_not_called notCalled, named_of_not_called (not_called abreast.tokens notCalled)]
    exact constant_inStep placed sameValue abreast

theorem factorOf_inStep {factor factor' : Parser Expr} (factorStep : R.InStep (Alike R.places) factor factor')
    (sumStep : R.InStep (Alike R.places) sum sum') :
    R.InStep (Alike R.places) (factorOf last factor sum) (factorOf last' factor' sum') := by
  rintro ⟨rest, depth, operators⟩ ⟨rest', _, _⟩ ⟨related, rfl, rfl⟩
  rw [factorOf, factorOf]
  refine Goes.peek ?_
  cases rest with
  | nil =>
    obtain ⟨rfl, placed⟩ := R.exhausted related
    exact fails placed
  | cons t rest =>
    obtain ⟨⟨s, q⟩, rest', rfl, placed, turn, -, -, onward⟩ := R.next related
    obtain ⟨symbol, p⟩ := t
    have ahead (unended : symbol ≠ .done) : R.Abreast ⟨rest, depth, operators⟩ ⟨rest', depth, operators⟩ :=
      ⟨onward unended, rfl, rfl⟩
    cases turn with
    | own answers =>
      cases s with
      | minus =>
        refine Goes.advance ((factorStep (ahead nofun)).bind ?_)
        intro operand operand' t t' alike abreast _ _
        exact gives (.negation alike placed) abreast
      | integer n | real x => exact Goes.advance (gives (.number placed) (ahead nofun))
      | openParen => exact Goes.enter (group_inStep sumStep placed (ahead nofun))
      | name name => exact Goes.advance (named_inStep sumStep placed (ahead nofun) answers)
      | _ => exact fails placed
    | settled bare =>
      obtain ⟨name, named, -, notCalled⟩ := isBareAnswer_eq_true_iff.mp bare
      cases named
      have answered : named last sum name p ⟨rest, depth, operators⟩ =
          (pure (.number last p) : Parser Expr) ⟨rest, depth, operators⟩ :=
        (named_of_not_called notCalled).trans (congrFun (constant_eq bare) _)
      have number : R.Goes (Alike R.places) ⟨rest, depth, operators⟩ ⟨rest', depth, operators⟩
          (named last sum name p ⟨rest, depth, operators⟩)
          ((pure (.number last q) : Parser Expr) ⟨rest', depth, operators⟩) := by
        rw [answered]
        exact gives (.number placed) (ahead nofun)
      cases last with
      | integer n | real x => exact Goes.advance number

theorem tooDeep_inStep : R.InStep (Alike R.places) tooDeep tooDeep := by
  rintro ⟨rest, depth, operators⟩ ⟨rest', _, _⟩ ⟨related, rfl, rfl⟩
  cases rest with
  | nil =>
    obtain ⟨rfl, placed⟩ := R.exhausted related
    exact fails placed
  | cons t rest =>
    obtain ⟨t', rest', rfl, placed, -⟩ := R.next related
    exact fails placed

theorem routines_inStep (fuel : Nat) :
    R.InStep (Alike R.places) (routines last fuel).factor (routines last' fuel).factor ∧
      R.InStep (Alike R.places) (routines last fuel).power (routines last' fuel).power := by
  induction fuel with
  | zero => exact ⟨tooDeep_inStep, tooDeep_inStep⟩
  | succ fuel ih =>
    have factor := nested_inStep ih.1
    have power := powerOf_inStep factor (nested_inStep ih.2)
    exact ⟨factorOf_inStep factor (sumOf_inStep power), power⟩

end Factors

theorem ofTokens_together {tokens tokens' : List Token} (related : R.tokens tokens tokens') :
    Together R.Errors (Alike R.places) (ofTokens last tokens) (ofTokens last' tokens') := by
  have abreast : R.Abreast ⟨tokens, 0, 0⟩ ⟨tokens', 0, 0⟩ := ⟨related, rfl, rfl⟩
  have formula : R.InStep (Alike R.places) (formula last) (formula last') := by
    intro s s' abreast
    refine (sumOf_inStep (routines_inStep (maxNesting + 1)).2 abreast).bind ?_
    rintro whole whole' ⟨rest, depth, operators⟩ ⟨rest', _, _⟩ alike ⟨related, rfl, rfl⟩ - -
    refine Goes.peek ?_
    cases rest with
    | nil =>
      obtain ⟨rfl, placed⟩ := R.exhausted related
      exact fails placed
    | cons t rest =>
      obtain ⟨⟨s, p'⟩, rest', rfl, there, turn, trailing, -⟩ := R.next related
      obtain ⟨symbol, q'⟩ := t
      rcases turn.eq_or_settled with same | ⟨name, named, settled⟩
      · dsimp only at same
        subst same
        cases s with
        | done => exact gives alike ⟨related, rfl, rfl⟩
        | _ => exact .error ⟨trailing, there⟩
      · dsimp only at named settled
        subst named settled
        cases last <;> exact .error ⟨trailing, there⟩
  exact (formula abreast).map fun _ _ onward => onward.alike

end Lockstep

end Expr

end Calculator
