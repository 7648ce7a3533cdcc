import Calculator.Proofs.Expr.Evaluation
import Calculator.Proofs.Expr.Words
import Calculator.Proofs.Token.LetterCase

namespace Calculator

open Text (foldName_of_inSmall)

namespace Token

variable {t t' : Token} {s : Symbol} {p : Nat} {name : String}

theorem eq_of_inSmall (other : ∀ name, s ≠ .name name) (same : t.inSmall = Token.inSmall ⟨s, p⟩) : t = ⟨s, p⟩ := by
  obtain ⟨symbol, position⟩ := t
  have fixed : s.inSmall = s := by
    cases s with
    | name text => exact absurd rfl (other text)
    | _ => rfl
  rw [inSmall, inSmall, fixed] at same
  cases symbol with
  | name text => exact absurd (congrArg Token.symbol same).symm (other _)
  | _ => exact same

theorem exists_name_of_inSmall (same : t.inSmall = Token.inSmall ⟨.name name, p⟩) :
    ∃ name', t = ⟨.name name', p⟩ ∧ Text.inSmall name' = Text.inSmall name := by
  obtain ⟨symbol, position⟩ := t
  cases symbol with
  | name text =>
    obtain ⟨names, rfl⟩ := Token.mk.inj same
    exact ⟨text, rfl, Symbol.name.inj names⟩
  | _ => cases same

end Token

namespace Expr

open Token (NamesApart)

variable {last v : Value} {rank : Rank} {word word' tokens tokens' : List Token} {e left right : Expr} {n p : Nat}
  {name name' : String}

section Adjacent

theorem joins_plain {s : Symbol} {op : Operator} (joins : Joins rank s op) : ∀ name, s ≠ .name name := by
  cases joins <;> exact nofun

theorem Derives.namesApart (derives : Derives last rank word e n) : NamesApart word := by
  have operand {t : Token} (name : t.IsName) : t.isOperand = true := by
    obtain ⟨text, symbol⟩ := name
    rw [Token.isOperand, symbol]
  exact derives.operandsApart.imp fun t t' apart names => apart ⟨operand names.1, operand names.2⟩

theorem Spelled.namesApart (spelled : Spelled last tokens e) :
    NamesApart (tokens.takeWhile fun t => t.symbol ≠ .done) := by
  obtain ⟨word, final, rest, nesting, rfl, ends, before, derives, _⟩ := spelled
  rw [takeWhile_before_end before ends]
  exact derives.namesApart

end Adjacent

section Recased

def inSmall : Expr → Expr
  | .number v p => .number v p
  | .binary op left right p => .binary op left.inSmall right.inSmall p
  | .negation e p => .negation e.inSmall p
  | .call0 name p => .call0 (Text.inSmall name) p
  | .call1 name e p => .call1 (Text.inSmall name) e.inSmall p
  | .call2 name e f p => .call2 (Text.inSmall name) e.inSmall f.inSmall p

theorem position_inSmall (e : Expr) : e.inSmall.position = e.position := by cases e <;> rfl

theorem operatorCount_inSmall (e : Expr) : e.inSmall.operatorCount = e.operatorCount := by
  induction e with
  | number | call0 => rfl
  | binary op left right p ihl ihr => simp [inSmall, operatorCount, ihl, ihr]
  | negation e p ih => simp [inSmall, operatorCount, ih]
  | call1 name e p ih => simp [inSmall, operatorCount, ih]
  | call2 name e f p ihe ihf => simp [inSmall, operatorCount, ihe, ihf]

theorem NamedNumber.recased (named : NamedNumber last name v) (same : Text.inSmall name' = Text.inSmall name) :
    NamedNumber last name' v := by
  have folded : Text.foldName name' = Text.foldName name := foldName_of_inSmall same
  cases named with
  | answer known => exact .answer (folded.trans known)
  | euler known => exact .euler (folded.trans known)
  | pi known => exact .pi (folded ▸ known)

def SameLetters (word' word : List Token) : Prop := word'.map Token.inSmall = word.map Token.inSmall

variable {s : Symbol} {a b : List Token}

theorem exists_of_sameLetters_cons (same : SameLetters word' (⟨s, p⟩ :: b)) (other : ∀ name, s ≠ .name name) :
    ∃ b', word' = ⟨s, p⟩ :: b' ∧ SameLetters b' b := by
  obtain ⟨t, b', rfl, first, following⟩ := List.map_eq_cons_iff.mp same
  rw [Token.eq_of_inSmall other first]
  exact ⟨b', rfl, following⟩

theorem exists_of_sameLetters_name (same : SameLetters word' (⟨.name name, p⟩ :: b)) :
    ∃ name' b', word' = ⟨.name name', p⟩ :: b' ∧ Text.inSmall name' = Text.inSmall name ∧ SameLetters b' b := by
  obtain ⟨t, b', rfl, first, following⟩ := List.map_eq_cons_iff.mp same
  obtain ⟨name', rfl, letters⟩ := Token.exists_name_of_inSmall first
  exact ⟨name', b', rfl, letters, following⟩

theorem exists_of_sameLetters_append (same : SameLetters word' (a ++ ⟨s, p⟩ :: b))
    (other : ∀ name, s ≠ .name name) :
    ∃ a' b', word' = a' ++ ⟨s, p⟩ :: b' ∧ SameLetters a' a ∧ SameLetters b' b := by
  rw [SameLetters, List.map_append] at same
  obtain ⟨a', tail, rfl, front, back⟩ := List.map_eq_append_iff.mp same
  obtain ⟨b', rfl, following⟩ := exists_of_sameLetters_cons back other
  exact ⟨a', b', rfl, front, following⟩

theorem sameLetters_inSmall (tokens : List Token) : SameLetters (tokens.map Token.inSmall) tokens := by
  rw [SameLetters, List.map_map]
  exact List.map_congr_left fun t _ => t.inSmall_inSmall

theorem eq_nil_of_sameLetters (same : SameLetters word' []) : word' = [] := List.map_eq_nil_iff.mp same

/-- In other letters a word stands for a formula that differs in its letters only. -/
def Recased (last : Value) (rank : Rank) (word : List Token) (e : Expr) (n : Nat) : Prop :=
  ∀ {word'}, SameLetters word' word → ∃ e', Derives last rank word' e' n ∧ e'.inSmall = e.inSmall

theorem recased_operands {first second : Rank} {op : Operator} {m : Nat} (same : SameLetters word' (a ++ ⟨s, p⟩ :: b))
    (joins : Joins rank s op) (inLeft : Recased last first a left n) (inRight : Recased last second b right m) :
    ∃ a' b' left' right', word' = a' ++ ⟨s, p⟩ :: b' ∧ Derives last first a' left' n ∧
      Derives last second b' right' m ∧ (binary op left' right' p).inSmall = (binary op left right p).inSmall := by
  obtain ⟨a', b', rfl, front, back⟩ := exists_of_sameLetters_append same (joins_plain joins)
  obtain ⟨left', derives, names⟩ := inLeft front
  obtain ⟨right', derives', names'⟩ := inRight back
  exact ⟨a', b', left', right', rfl, derives, derives', by rw [inSmall, names, names', inSmall]⟩

theorem Derives.recased (derives : Derives last rank word e n) (same : SameLetters word' word) :
    ∃ e', Derives last rank word' e' n ∧ e'.inSmall = e.inSmall := by
  induction derives generalizing word' with
  | ofProduct _ ih =>
    obtain ⟨e', derives, names⟩ := ih same
    exact ⟨e', .ofProduct derives, names⟩
  | ofPower _ ih =>
    obtain ⟨e', derives, names⟩ := ih same
    exact ⟨e', .ofPower derives, names⟩
  | ofFactor _ ih =>
    obtain ⟨e', derives, names⟩ := ih same
    exact ⟨e', .ofFactor derives, names⟩
  | sum _ joins _ ih ih' =>
    obtain ⟨a', b', left', right', rfl, left, right, names⟩ := recased_operands same joins ih ih'
    exact ⟨_, .sum left joins right, names⟩
  | product _ joins _ ih ih' =>
    obtain ⟨a', b', left', right', rfl, left, right, names⟩ := recased_operands same joins ih ih'
    exact ⟨_, .product left joins right, names⟩
  | power _ joins _ ih ih' =>
    obtain ⟨a', b', left', right', rfl, left, right, names⟩ := recased_operands same joins ih ih'
    exact ⟨_, .power left joins right, names⟩
  | negation _ ih =>
    obtain ⟨b', rfl, back⟩ := exists_of_sameLetters_cons same nofun
    obtain ⟨e', operand, names⟩ := ih back
    exact ⟨_, .negation operand, by rw [inSmall, names, inSmall]⟩
  | integer =>
    obtain ⟨b', rfl, back⟩ := exists_of_sameLetters_cons same nofun
    rw [eq_nil_of_sameLetters back]
    exact ⟨_, .integer, rfl⟩
  | real =>
    obtain ⟨b', rfl, back⟩ := exists_of_sameLetters_cons same nofun
    rw [eq_nil_of_sameLetters back]
    exact ⟨_, .real, rfl⟩
  | named named =>
    obtain ⟨name', b', rfl, letters, back⟩ := exists_of_sameLetters_name same
    rw [eq_nil_of_sameLetters back]
    exact ⟨_, .named (named.recased letters), rfl⟩
  | group _ ih =>
    obtain ⟨b', rfl, back⟩ := exists_of_sameLetters_cons same nofun
    obtain ⟨inner', c', rfl, front, closing⟩ := exists_of_sameLetters_append back nofun
    rw [eq_nil_of_sameLetters closing]
    obtain ⟨e', inner, names⟩ := ih front
    exact ⟨e', .group inner, names⟩
  | call0 =>
    obtain ⟨name', b', rfl, letters, back⟩ := exists_of_sameLetters_name same
    obtain ⟨c', rfl, inside⟩ := exists_of_sameLetters_cons back nofun
    obtain ⟨d', rfl, closing⟩ := exists_of_sameLetters_cons inside nofun
    rw [eq_nil_of_sameLetters closing]
    exact ⟨_, .call0, by rw [inSmall, letters, inSmall]⟩
  | call1 _ ih =>
    obtain ⟨name', b', rfl, letters, back⟩ := exists_of_sameLetters_name same
    obtain ⟨c', rfl, inside⟩ := exists_of_sameLetters_cons back nofun
    obtain ⟨inner', d', rfl, front, closing⟩ := exists_of_sameLetters_append inside nofun
    rw [eq_nil_of_sameLetters closing]
    obtain ⟨e', argument, names⟩ := ih front
    exact ⟨_, .call1 argument, by rw [inSmall, letters, names, inSmall]⟩
  | call2 _ _ ih ih' =>
    obtain ⟨name', b', rfl, letters, back⟩ := exists_of_sameLetters_name same
    obtain ⟨c', rfl, inside⟩ := exists_of_sameLetters_cons back nofun
    obtain ⟨inner', d', rfl, front, behind⟩ := exists_of_sameLetters_append inside nofun
    obtain ⟨inner'', d'', rfl, front', closing⟩ := exists_of_sameLetters_append behind nofun
    rw [eq_nil_of_sameLetters closing]
    obtain ⟨e', first, names⟩ := ih front
    obtain ⟨f', second, names'⟩ := ih' front'
    exact ⟨_, .call2 first second, by rw [inSmall, letters, names, names', inSmall]⟩

theorem ofTokens_recased (same : SameLetters tokens' tokens) (parses : ofTokens last tokens = .ok e) :
    ∃ e', ofTokens last tokens' = .ok e' ∧ e'.inSmall = e.inSmall := by
  obtain ⟨word, final, rest, nesting, rfl, ends, _, derives, nested, limited⟩ := ofTokens_eq_ok_iff.mp parses
  obtain ⟨symbol, position⟩ := final
  cases ends
  obtain ⟨word', rest', rfl, front, _⟩ := exists_of_sameLetters_append same nofun
  obtain ⟨e', derives', names⟩ := derives.recased front
  have count : e'.operatorCount = e.operatorCount := by
    rw [← operatorCount_inSmall e', names, operatorCount_inSmall]
  exact ⟨e', ofTokens_eq_ok_iff.mpr ⟨word', ⟨.done, position⟩, rest', nesting, rfl, rfl, derives'.before_end,
    derives', nested, count ▸ limited⟩, names⟩

end Recased

section Values

theorem find?_inSmall (name : String) : Function.find? (Text.inSmall name) = Function.find? name := by
  rw [Function.find?, Text.foldName_inSmall, Function.find?]

theorem call_inSmall {arguments : List Value} :
    Function.call (Text.inSmall name) p arguments = .ok v ↔ Function.call name p arguments = .ok v := by
  unfold Function.call
  rw [find?_inSmall]
  cases Function.find? name with
  | none => exact ⟨nofun, nofun⟩
  | some g =>
    dsimp only
    cases g.apply? arguments with
    | none => exact ⟨nofun, nofun⟩
    | some outcome => cases outcome <;> rfl

theorem eval_inSmall : e.inSmall.eval = .ok v ↔ e.eval = .ok v := by
  induction e generalizing v with
  | number w p => rfl
  | binary op left right p ihl ihr => simp only [inSmall, eval_binary_eq_ok_iff, ihl, ihr]
  | negation e p ih => simp only [inSmall, eval_negation_eq_ok_iff, ih]
  | call0 name p => exact call_inSmall
  | call1 name e p ih => simp only [inSmall, eval, bind_eq_ok_iff, ih, call_inSmall]
  | call2 name e f p ihe ihf => simp only [inSmall, eval, bind_eq_ok_iff, ihe, ihf, call_inSmall]

theorem answer_inSmall : e.inSmall.answer = .ok v ↔ e.answer = .ok v := by
  simp only [answer, bind_eq_ok_iff, eval_inSmall, position_inSmall]

theorem floorDiv_inSmall {d : Whole.Division} :
    left.inSmall.floorDiv right.inSmall p = .ok d ↔ left.floorDiv right p = .ok d := by
  simp only [floorDiv, bind_eq_ok_iff, answer_inSmall, position_inSmall]

end Values

end Expr

end Calculator
