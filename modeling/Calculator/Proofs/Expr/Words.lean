import Calculator.Proofs.Expr.Evaluation
import Calculator.Proofs.Expr.Recognition
import Mathlib.Data.List.Chain

namespace Calculator

def Token.isOperand (t : Token) : Bool :=
  match t.symbol with
  | .integer _ | .real _ | .name _ => true
  | _ => false

namespace Expr

variable {last : Value} {rank : Rank} {word word' : List Token} {e : Expr} {n : Nat}

theorem Derives.ne_nil (derives : Derives last rank word e n) : word ≠ [] := by
  obtain ⟨t, tail, rfl, _⟩ := derives.begins
  exact List.cons_ne_nil t tail

section Operands

/-- No number or name stands right behind another one. -/
def OperandsApart (tokens : List Token) : Prop := tokens.IsChain fun t t' => ¬ (t.isOperand ∧ t'.isOperand)

theorem operandsApart_cons {t : Token} (other : t.isOperand = false) (apart : OperandsApart word) :
    OperandsApart (t :: word) :=
  List.isChain_cons.mpr ⟨fun _ _ operands => by simp [other] at operands, apart⟩

theorem operandsApart_before {t u : Token} (other : u.isOperand = false) (apart : OperandsApart word) :
    OperandsApart (t :: u :: word) :=
  .cons_cons (fun operands => by simp [other] at operands) (operandsApart_cons other apart)

theorem operandsApart_append_cons {t : Token} (apart : OperandsApart word) (other : t.isOperand = false)
    (apart' : OperandsApart word') : OperandsApart (word ++ t :: word') := by
  refine apart.append (operandsApart_cons other apart') fun u _ u' first operands => ?_
  cases first
  simp [other] at operands

theorem isOperand_of_joins {s : Symbol} {op : Operator} {p : Nat} (joins : Joins rank s op) :
    Token.isOperand ⟨s, p⟩ = false := by
  cases joins <;> rfl

/-- Between two operands of a formula stands at least an operator, a comma or a parenthesis. -/
theorem Derives.operandsApart (derives : Derives last rank word e n) : OperandsApart word := by
  induction derives with
  | ofProduct _ ih | ofPower _ ih | ofFactor _ ih => exact ih
  | sum _ joins _ ih ih' | product _ joins _ ih ih' | power _ joins _ ih ih' =>
    exact operandsApart_append_cons ih (isOperand_of_joins joins) ih'
  | negation _ ih => exact operandsApart_cons rfl ih
  | integer | real | named => exact .singleton _
  | group _ ih => exact operandsApart_cons rfl (operandsApart_append_cons ih rfl .nil)
  | call0 => exact operandsApart_before rfl (.singleton _)
  | call1 _ ih => exact operandsApart_before rfl (operandsApart_append_cons ih rfl .nil)
  | call2 _ _ ih ih' =>
    exact operandsApart_before rfl (operandsApart_append_cons ih rfl (operandsApart_append_cons ih' rfl .nil))

end Operands

section Depth

/-- How many parentheses are open behind a token, given how many are before it. A closing parenthesis or a
comma has no place where none is. -/
def depthBehind (depth : Nat) (t : Token) : Option Nat :=
  match t.symbol with
  | .openParen => some (depth + 1)
  | .closeParen => if depth = 0 then none else some (depth - 1)
  | .comma => if depth = 0 then none else some depth
  | _ => some depth

variable {t u : Token} {a b x y : List Token} {d p : Nat}

theorem depthBehind_of_makesNode (plain : makesNode t = true) : depthBehind d t = some d := by
  obtain ⟨symbol, p⟩ := t
  cases symbol with
  | openParen | closeParen | comma => cases plain
  | _ => rfl

theorem makesNode_of_joins {s : Symbol} {op : Operator} (joins : Joins rank s op) : makesNode ⟨s, p⟩ = true := by
  cases joins <;> rfl

@[simp] theorem depthBehind_name {name : String} : depthBehind d ⟨.name name, p⟩ = some d := rfl

@[simp] theorem depthBehind_minus : depthBehind d ⟨.minus, p⟩ = some d := rfl

@[simp] theorem depthBehind_openParen : depthBehind d ⟨.openParen, p⟩ = some (d + 1) := rfl

@[simp] theorem depthBehind_closeParen : depthBehind (d + 1) ⟨.closeParen, p⟩ = some d := rfl

@[simp] theorem depthBehind_comma : depthBehind (d + 1) ⟨.comma, p⟩ = some (d + 1) := rfl

/-- At any depth a word of the grammar leads back to the depth it began at. -/
theorem Derives.foldlM_depthBehind (derives : Derives last rank word e n) (d : Nat) :
    word.foldlM depthBehind d = some d := by
  induction derives generalizing d with
  | ofProduct _ ih | ofPower _ ih | ofFactor _ ih => exact ih d
  | sum _ joins _ ih ih' | product _ joins _ ih ih' | power _ joins _ ih ih' =>
    simp [ih, ih', depthBehind_of_makesNode (makesNode_of_joins joins)]
  | negation _ ih | group _ ih | call1 _ ih => simp [ih]
  | call2 _ _ ih ih' => simp [ih, ih']
  | integer | real | named | call0 => rfl

theorem foldlM_depthBehind_of_makesNode (plain : ∀ t ∈ word, makesNode t = true) (d : Nat) :
    word.foldlM depthBehind d = some d := by
  induction word with
  | nil => rfl
  | cons t word ih =>
    obtain ⟨first, others⟩ := List.forall_mem_cons.mp plain
    simp [depthBehind_of_makesNode first, ih others]

theorem eq_of_misplaced (outside : a.foldlM depthBehind 0 = some 0) (misplaced : depthBehind 0 t = none)
    (outside' : b.foldlM depthBehind 0 = some 0) (misplaced' : depthBehind 0 u = none)
    (same : a ++ t :: x = b ++ u :: y) : a = b ∧ t = u ∧ x = y := by
  rcases List.append_eq_append_iff.mp same with ⟨more, rfl, tail⟩ | ⟨more, rfl, tail⟩
  · cases more with
    | nil => simpa using tail
    | cons v more =>
      obtain ⟨rfl, rfl⟩ := List.cons.inj tail
      simp [outside, misplaced] at outside'
  · cases more with
    | nil => simpa [eq_comm] using tail
    | cons v more =>
      obtain ⟨rfl, rfl⟩ := List.cons.inj tail
      simp [outside', misplaced'] at outside

end Depth

section Calls

variable {name : String} {inner first second front behind a b : List Token} {s : Symbol} {p q r c d k : Nat}

def called (name : String) (p q : Nat) (inner : List Token) (r : Nat) : List Token :=
  ⟨.name name, p⟩ :: ⟨.openParen, q⟩ :: (inner ++ [⟨.closeParen, r⟩])

def startsCall : Symbol → Bool
  | .name _ | .openParen => true
  | _ => false

theorem startsCall_of_joins {op : Operator} (joins : Joins rank s op) : startsCall s = false := by
  cases joins <;> rfl

def isFlat (t : Token) : Bool :=
  match t.symbol with
  | .openParen | .closeParen => false
  | _ => true

theorem isFlat_of_makesNode {t : Token} (plain : makesNode t = true) : isFlat t = true := by
  obtain ⟨symbol, p⟩ := t
  cases symbol with
  | openParen | closeParen => cases plain
  | _ => rfl

theorem isFlat_of_arguments (plain : ∀ t ∈ first ++ second, makesNode t = true) :
    ∀ t ∈ first ++ ⟨.comma, c⟩ :: second, isFlat t = true := by
  intro t member
  by_cases comma : t = ⟨.comma, c⟩
  · rw [comma]
    rfl
  · exact isFlat_of_makesNode (plain t (by simpa [comma] using member))

theorem foldlM_depthBehind_of_isFlat (flat : ∀ t ∈ word, isFlat t = true) (d : Nat) :
    word.foldlM depthBehind (d + 1) = some (d + 1) := by
  induction word with
  | nil => rfl
  | cons t word ih =>
    obtain ⟨first, others⟩ := List.forall_mem_cons.mp flat
    obtain ⟨symbol, p⟩ := t
    cases symbol with
    | openParen | closeParen => cases first
    | _ => exact ih others

theorem foldlM_depthBehind_of_called (flat : ∀ t ∈ inner, isFlat t = true)
    (split : called name p q inner r = a ++ ⟨s, k⟩ :: b) (other : startsCall s = false) (d : Nat) :
    a.foldlM depthBehind d = some (d + 1) := by
  unfold called at split
  cases a with
  | nil =>
    cases split
    cases other
  | cons v a =>
    rw [List.cons_append, List.cons.injEq] at split
    obtain ⟨rfl, split⟩ := split
    cases a with
    | nil =>
      cases split
      cases other
    | cons v a =>
      rw [List.cons_append, List.cons.injEq] at split
      obtain ⟨rfl, split⟩ := split
      have inside : a <+: inner := by
        have length := congrArg List.length split
        simp only [List.length_append, List.length_cons, List.length_nil] at length
        exact List.prefix_of_prefix_length_le ⟨_, split.symm⟩ (List.prefix_append _ _) (by omega)
      simp [foldlM_depthBehind_of_isFlat fun t member => flat t (inside.subset member)]

theorem eq_append_called_of_split (closed : a.foldlM depthBehind 0 = some 0)
    (flat : ∀ t ∈ inner, isFlat t = true)
    (split : a ++ ⟨s, k⟩ :: b = front ++ (called name p q inner r ++ behind)) (other : startsCall s = false) :
    (∃ behind', a = front ++ (called name p q inner r ++ behind')) ∨
      ∃ front', b = front' ++ (called name p q inner r ++ behind) := by
  rcases List.append_eq_append_iff.mp split with ⟨more, rfl, tail⟩ | ⟨more, rfl, tail⟩
  · cases more with
    | nil =>
      cases tail
      cases other
    | cons v more => exact .inr ⟨more, (List.cons.inj tail).2⟩
  · rcases List.append_eq_append_iff.mp tail with ⟨behind', rfl, _⟩ | ⟨others, inside, tail⟩
    · exact .inl ⟨behind', rfl⟩
    · cases others with
      | nil =>
        rw [List.append_nil] at inside
        exact .inl ⟨[], by rw [inside, List.append_nil]⟩
      | cons v others =>
        obtain ⟨rfl, _⟩ := List.cons.inj tail
        cases before : front.foldlM depthBehind 0 with
        | none => simp [before] at closed
        | some d => simp [before, foldlM_depthBehind_of_called flat inside other] at closed

theorem exists_of_cons (split : ⟨s, k⟩ :: b = front ++ (called name p q inner r ++ behind))
    (other : Token.isOperand ⟨s, k⟩ = false) :
    ∃ front', b = front' ++ (called name p q inner r ++ behind) := by
  cases front with
  | nil =>
    cases split
    cases other
  | cons v front => exact ⟨front, (List.cons.inj split).2⟩

theorem exists_of_last (closed : a.foldlM depthBehind 0 = some 0) (flat : ∀ t ∈ inner, isFlat t = true)
    (split : a ++ [⟨s, k⟩] = front ++ (called name p q inner r ++ behind)) (other : startsCall s = false) :
    ∃ behind', a = front ++ (called name p q inner r ++ behind') := by
  rcases eq_append_called_of_split closed flat split other with inside | ⟨front', none⟩
  · exact inside
  · simp [called] at none

theorem eq_or_exists_of_called {name' : String} {p' q' : Nat}
    (split : ⟨.name name', p'⟩ :: ⟨.openParen, q'⟩ :: b = front ++ (called name p q inner r ++ behind)) :
    (name' = name ∧ p' = p ∧ b = inner ++ ⟨.closeParen, r⟩ :: behind) ∨
      ∃ front', b = front' ++ (called name p q inner r ++ behind) := by
  cases front with
  | nil =>
    simp only [called, List.nil_append, List.cons_append, List.append_assoc, List.cons.injEq, Token.mk.injEq,
      Symbol.name.injEq] at split
    obtain ⟨⟨rfl, rfl⟩, _, rfl⟩ := split
    exact .inl ⟨rfl, rfl, rfl⟩
  | cons v front => exact .inr (exists_of_cons (List.cons.inj split).2 rfl)

def CallsOn (last : Value) (name : String) (p : Nat) (first second : List Token) (e : Expr) : Prop :=
  ∃ f g m n, .call2 name f g p ∈ e.subtrees ∧ Derives last .sum first f m ∧ Derives last .sum second g n

theorem CallsOn.outer {e' : Expr} (calls : CallsOn last name p first second e)
    (outer : ∀ s ∈ e.subtrees, s ∈ e'.subtrees) : CallsOn last name p first second e' := by
  obtain ⟨f, g, m, n, member, derives⟩ := calls
  exact ⟨f, g, m, n, outer _ member, derives⟩

/-- What is written like a call of two arguments is one. -/
theorem Derives.callsOn (derives : Derives last rank word e n)
    (plain : ∀ t ∈ first ++ second, makesNode t = true)
    (split : word = front ++ (called name p q (first ++ ⟨.comma, c⟩ :: second) r ++ behind)) :
    CallsOn last name p first second e := by
  obtain ⟨plainFirst, plainSecond⟩ := List.forall_mem_append.mp plain
  have outsideFirst := foldlM_depthBehind_of_makesNode plainFirst 0
  have outsideSecond := foldlM_depthBehind_of_makesNode plainSecond 0
  have flat := isFlat_of_arguments (c := c) plain
  -- the tokens that part a word into smaller ones are no part of a call, so it lies in one of these, or is the word
  induction derives generalizing front behind with
  | ofProduct _ ih | ofPower _ ih | ofFactor _ ih => exact ih split
  | sum left joins _ ih ih' | product left joins _ ih ih' | power left joins _ ih ih' =>
    rcases eq_append_called_of_split (left.foldlM_depthBehind 0) flat split (startsCall_of_joins joins) with
      ⟨_, inLeft⟩ | ⟨_, inRight⟩
    · exact (ih inLeft).outer (by simp +contextual [subtrees])
    · exact (ih' inRight).outer (by simp +contextual [subtrees])
  | negation _ ih =>
    obtain ⟨_, inside⟩ := exists_of_cons split rfl
    exact (ih inside).outer (by simp +contextual [subtrees])
  | integer | real | named => simp [called, List.cons_eq_append_iff] at split
  | group sum ih =>
    obtain ⟨_, inside⟩ := exists_of_cons split rfl
    obtain ⟨_, inside⟩ := exists_of_last (sum.foldlM_depthBehind 0) flat inside rfl
    exact ih inside
  | call0 =>
    have empty : ([] : List Token).foldlM depthBehind 0 = some 0 := rfl
    rcases eq_or_exists_of_called split with ⟨rfl, rfl, same⟩ | ⟨_, inside⟩
    · rw [List.append_assoc] at same
      cases (eq_of_misplaced empty rfl outsideFirst rfl same).2.1
    · obtain ⟨_, inside⟩ := exists_of_last empty flat inside rfl
      simp [called] at inside
  | call1 argument ih =>
    rcases eq_or_exists_of_called split with ⟨rfl, rfl, same⟩ | ⟨_, inside⟩
    · rw [List.append_assoc] at same
      cases (eq_of_misplaced (argument.foldlM_depthBehind 0) rfl outsideFirst rfl same).2.1
    · obtain ⟨_, inside⟩ := exists_of_last (argument.foldlM_depthBehind 0) flat inside rfl
      exact (ih inside).outer (by simp +contextual [subtrees])
  | call2 left right ih ih' =>
    rcases eq_or_exists_of_called split with ⟨rfl, rfl, same⟩ | ⟨_, inside⟩
    · rw [List.append_assoc] at same
      obtain ⟨rfl, _, same⟩ := eq_of_misplaced (left.foldlM_depthBehind 0) rfl outsideFirst rfl same
      obtain ⟨rfl, _, _⟩ := eq_of_misplaced (right.foldlM_depthBehind 0) rfl outsideSecond rfl same
      exact ⟨_, _, _, _, mem_subtrees_self _, left, right⟩
    · rcases eq_append_called_of_split (left.foldlM_depthBehind 0) flat inside rfl with
        ⟨_, inside⟩ | ⟨_, inside⟩
      · exact (ih inside).outer (by simp +contextual [subtrees])
      · obtain ⟨_, inside⟩ := exists_of_last (right.foldlM_depthBehind 0) flat inside rfl
        exact (ih' inside).outer (by simp +contextual [subtrees])

theorem Derives.comma_mem (derives : Derives last rank word e n) {f g : Expr}
    (member : .call2 name f g p ∈ e.subtrees) : .comma ∈ word.map Token.symbol := by
  induction derives with
  | ofProduct _ ih | ofPower _ ih | ofFactor _ ih => exact ih member
  | sum _ _ _ ih ih' | product _ _ _ ih ih' | power _ _ _ ih ih' =>
    simp only [subtrees, List.mem_cons, List.mem_append, reduceCtorEq, false_or] at member
    simp only [List.map_append, List.map_cons, List.mem_append, List.mem_cons]
    rcases member with member | member
    · exact .inl (ih member)
    · exact .inr (.inr (ih' member))
  | negation _ ih | call1 _ ih =>
    simp only [subtrees, List.mem_cons, reduceCtorEq, false_or] at member
    simp only [List.map_append, List.map_cons, List.mem_append, List.mem_cons, ih member, true_or, or_true]
  | integer | real | named | call0 => simp [subtrees] at member
  | group _ ih =>
    simp only [List.map_append, List.map_cons, List.mem_append, List.mem_cons, ih member, true_or, or_true]
  | call2 => simp

end Calls

end Expr

end Calculator
