import Calculator.Proofs.Expr.Evaluation

namespace Calculator

/-- The exact result: a quotient only where nothing is left over, and a power only with an exponent that is
not negative. -/
def Operator.exactValue? (op : Operator) (a b : Int) : Option Int :=
  match op with
  | .add => some (a + b)
  | .sub => some (a - b)
  | .mul => some (a * b)
  | .div => if b ≠ 0 ∧ b ∣ a then some (a / b) else none
  | .pow => if 0 ≤ b then some (Int.pow a b.toNat) else none

theorem Operator.onWhole?_eq_some_iff {op : Operator} {a b n : Int64} :
    op.onWhole? a b = some n ↔
      op.exactValue? a.toInt b.toInt = some n.toInt ∧ (op = .pow → b.toInt < exponentBound) := by
  cases op with
  | add => simp [onWhole?, exactValue?, Whole.add?_eq_some_iff, @eq_comm _ n.toInt]
  | sub => simp [onWhole?, exactValue?, Whole.sub?_eq_some_iff, @eq_comm _ n.toInt]
  | mul => simp [onWhole?, exactValue?, Whole.mul?_eq_some_iff, @eq_comm _ n.toInt]
  | div => simp [onWhole?, exactValue?, Whole.exactDiv?_eq_some_iff, @eq_comm _ n.toInt]
  | pow =>
    simp only [onWhole?, exactValue?, Option.ite_none_right_eq_some, Whole.pow?_eq_some_iff, Option.some.injEq,
      forall_const]
    constructor
    · rintro ⟨⟨sign, bound⟩, power⟩
      exact ⟨⟨sign, power.symm⟩, bound⟩
    · rintro ⟨⟨sign, power⟩, bound⟩
      exact ⟨⟨sign, bound⟩, power.symm⟩

theorem Operator.wholeResult?_eq_some_iff {op : Operator} {v w : Value} {n : Int64} :
    op.wholeResult? v w = some n ↔
      ∃ a b, v = .integer a ∧ w = .integer b ∧ op.onWhole? a b = some n := by
  cases v <;> cases w <;> simp [wholeResult?]

namespace Expr

def exactValue? : Expr → Option Int
  | .number (.integer n) _ => some n.toInt
  | .number (.real _) _ => none
  | .binary op left right _ => do
    let a ← left.exactValue?
    let b ← right.exactValue?
    op.exactValue? a b
  | .negation operand _ => operand.exactValue?.map fun a => -a
  | .call0 _ _ | .call1 _ _ _ | .call2 _ _ _ _ => none

def IsWholeArithmetic : Expr → Prop
  | .number (.integer _) _ => True
  | .number (.real _) _ => False
  | .binary _ left right _ => left.IsWholeArithmetic ∧ right.IsWholeArithmetic
  | .negation operand _ => operand.IsWholeArithmetic
  | .call0 _ _ | .call1 _ _ _ | .call2 _ _ _ _ => False

/-- Every node has an exact value of 64 bits, and every exponent one of 32 bits. -/
structure StaysWhole (e : Expr) : Prop where
  inRange : ∀ s ∈ e.subtrees, ∃ n, s.exactValue? = some n ∧ Whole.InRange n
  exponents : ∀ base exponent p, .binary .pow base exponent p ∈ e.subtrees →
    ∀ n, exponent.exactValue? = some n → n < Operator.exponentBound

section Nodes

variable {left right e : Expr} {op : Operator} {p : Nat} {n : Int64}

theorem exactValue?_binary_eq_some_iff {n : Int} : (Expr.binary op left right p).exactValue? = some n ↔
    ∃ a b, left.exactValue? = some a ∧ right.exactValue? = some b ∧ op.exactValue? a b = some n := by
  simp [exactValue?, Option.bind_eq_some_iff]

theorem exactValue?_negation_eq_some_iff {n : Int} :
    (Expr.negation e p).exactValue? = some n ↔ ∃ a, e.exactValue? = some a ∧ -a = n := by
  simp [exactValue?]

theorem eval_binary_eq_integer_iff : (Expr.binary op left right p).eval = .ok (.integer n) ↔
    ∃ a b, left.eval = .ok (.integer a) ∧ right.eval = .ok (.integer b) ∧
      op.exactValue? a.toInt b.toInt = some n.toInt ∧ (op = .pow → b.toInt < Operator.exponentBound) := by
  rw [eval_binary_eq_ok_iff]
  constructor
  · rintro ⟨v, w, first, second, applied, -⟩
    rw [Operator.apply_eq_integer_iff, Operator.wholeResult?_eq_some_iff] at applied
    obtain ⟨a, b, rfl, rfl, whole⟩ := applied
    exact ⟨a, b, first, second, Operator.onWhole?_eq_some_iff.mp whole⟩
  · rintro ⟨a, b, first, second, whole⟩
    refine ⟨_, _, first, second, ?_, rfl⟩
    rw [Operator.apply_eq_integer_iff]
    exact Operator.onWhole?_eq_some_iff.mpr whole

theorem eval_negation_eq_integer_iff : (Expr.negation e p).eval = .ok (.integer n) ↔
    ∃ a, e.eval = .ok (.integer a) ∧ n.toInt = -a.toInt := by
  rw [eval_negation_eq_ok_iff]
  constructor
  · rintro ⟨v, operand, negated⟩
    obtain ⟨a, rfl, opposite⟩ := Value.negate_eq_integer_iff.mp negated
    exact ⟨a, operand, Whole.neg?_eq_some_iff.mp opposite⟩
  · rintro ⟨a, operand, opposite⟩
    exact ⟨_, operand, Value.negate_eq_integer_iff.mpr ⟨a, rfl, Whole.neg?_eq_some_iff.mpr opposite⟩⟩

theorem staysWhole_binary_iff : StaysWhole (.binary op left right p) ↔
    (∃ n, (Expr.binary op left right p).exactValue? = some n ∧ Whole.InRange n) ∧
      (op = .pow → ∀ n, right.exactValue? = some n → n < Operator.exponentBound) ∧
      left.StaysWhole ∧ right.StaysWhole := by
  constructor
  · rintro ⟨inRange, exponents⟩
    simp only [subtrees, List.mem_cons, List.mem_append] at inRange exponents
    refine ⟨inRange _ (.inl rfl), ?_, ?_, ?_⟩
    · rintro rfl
      exact exponents left right p (.inl rfl)
    · exact ⟨fun s member => inRange s (.inr (.inl member)),
        fun base exponent q member => exponents base exponent q (.inr (.inl member))⟩
    · exact ⟨fun s member => inRange s (.inr (.inr member)),
        fun base exponent q member => exponents base exponent q (.inr (.inr member))⟩
  · rintro ⟨value, exponent, first, second⟩
    constructor
    · intro s member
      simp only [subtrees, List.mem_cons, List.mem_append] at member
      rcases member with rfl | member | member
      · exact value
      · exact first.inRange s member
      · exact second.inRange s member
    · intro base power q member
      simp only [subtrees, List.mem_cons, List.mem_append] at member
      rcases member with same | member | member
      · cases same
        exact exponent rfl
      · exact first.exponents base power q member
      · exact second.exponents base power q member

theorem staysWhole_negation_iff : StaysWhole (.negation e p) ↔
    (∃ n, (Expr.negation e p).exactValue? = some n ∧ Whole.InRange n) ∧ e.StaysWhole := by
  constructor
  · rintro ⟨inRange, exponents⟩
    simp only [subtrees, List.mem_cons] at inRange exponents
    exact ⟨inRange _ (.inl rfl), fun s member => inRange s (.inr member),
      fun base exponent q member => exponents base exponent q (.inr member)⟩
  · rintro ⟨value, operand⟩
    constructor
    · intro s member
      simp only [subtrees, List.mem_cons] at member
      rcases member with rfl | member
      · exact value
      · exact operand.inRange s member
    · intro base exponent q member
      simp only [subtrees, List.mem_cons, reduceCtorEq, false_or] at member
      exact operand.exponents base exponent q member

end Nodes

theorem staysWhole_integer (n : Int64) (p : Nat) : StaysWhole (.number (.integer n) p) where
  inRange := by
    intro s member
    rw [List.mem_singleton.mp member]
    exact ⟨n.toInt, rfl, Whole.inRange_toInt n⟩
  exponents := by
    intro base exponent q member
    cases List.mem_singleton.mp member

theorem StaysWhole.isWholeArithmetic {e : Expr} (h : e.StaysWhole) : e.IsWholeArithmetic := by
  induction e with
  | number v p =>
    cases v with
    | integer => exact True.intro
    | real =>
      obtain ⟨n, value, -⟩ := h.inRange _ (mem_subtrees_self _)
      cases value
  | binary op left right p ihl ihr =>
    obtain ⟨-, -, first, second⟩ := staysWhole_binary_iff.mp h
    exact ⟨ihl first, ihr second⟩
  | negation e p ih => exact ih (staysWhole_negation_iff.mp h).2
  | call0 | call1 | call2 =>
    obtain ⟨n, value, -⟩ := h.inRange _ (mem_subtrees_self _)
    cases value

/-- No node of a formula with a whole number as its value is a real on the way. -/
theorem staysWhole_of_eval {e : Expr} {n : Int64} (evaluates : e.eval = .ok (.integer n)) :
    e.StaysWhole ∧ e.exactValue? = some n.toInt := by
  induction e generalizing n with
  | number v p =>
    cases evaluates
    exact ⟨staysWhole_integer n p, rfl⟩
  | binary op left right p ihl ihr =>
    obtain ⟨a, b, first, second, result, bound⟩ := eval_binary_eq_integer_iff.mp evaluates
    obtain ⟨firstWhole, firstExact⟩ := ihl first
    obtain ⟨secondWhole, secondExact⟩ := ihr second
    have value := exactValue?_binary_eq_some_iff (p := p).mpr ⟨_, _, firstExact, secondExact, result⟩
    have inRange := Whole.inRange_toInt n
    refine ⟨staysWhole_binary_iff.mpr ⟨⟨_, value, inRange⟩, ?_, firstWhole, secondWhole⟩, value⟩
    intro power m exponent
    rw [secondExact] at exponent
    cases exponent
    exact bound power
  | negation e p ih =>
    obtain ⟨a, operand, opposite⟩ := eval_negation_eq_integer_iff.mp evaluates
    obtain ⟨operandWhole, operandExact⟩ := ih operand
    have value := exactValue?_negation_eq_some_iff (p := p).mpr ⟨_, operandExact, opposite.symm⟩
    exact ⟨staysWhole_negation_iff.mpr ⟨⟨_, value, Whole.inRange_toInt n⟩, operandWhole⟩, value⟩
  | call0 name p =>
    obtain ⟨-, x, other⟩ := eval_call0_is_real evaluates
    cases other
  | call1 name e p ih =>
    obtain ⟨-, x, other⟩ := eval_call1_is_real evaluates
    cases other
  | call2 name e f p ihe ihf =>
    obtain ⟨-, x, other⟩ := eval_call2_is_real evaluates
    cases other

theorem eval_of_staysWhole {e : Expr} {n : Int64} (whole : e.StaysWhole)
    (value : e.exactValue? = some n.toInt) : e.eval = .ok (.integer n) := by
  induction e generalizing n with
  | number v p =>
    cases v with
    | integer m =>
      have same : m = n := Int64.toInt_inj.mp (Option.some.inj value)
      rw [same, eval_number]
    | real => cases value
  | binary op left right p ihl ihr =>
    obtain ⟨-, exponent, firstWhole, secondWhole⟩ := staysWhole_binary_iff.mp whole
    obtain ⟨a, b, firstExact, secondExact, result⟩ := exactValue?_binary_eq_some_iff.mp value
    obtain ⟨_, known, firstRange⟩ := firstWhole.inRange left (mem_subtrees_self left)
    cases firstExact.symm.trans known
    obtain ⟨_, known, secondRange⟩ := secondWhole.inRange right (mem_subtrees_self right)
    cases secondExact.symm.trans known
    obtain ⟨v, rfl⟩ := Whole.exists_toInt_eq firstRange
    obtain ⟨w, rfl⟩ := Whole.exists_toInt_eq secondRange
    exact eval_binary_eq_integer_iff.mpr
      ⟨v, w, ihl firstWhole firstExact, ihr secondWhole secondExact, result,
        fun power => exponent power _ secondExact⟩
  | negation e p ih =>
    have operandWhole := (staysWhole_negation_iff.mp whole).2
    obtain ⟨a, operandExact, opposite⟩ := exactValue?_negation_eq_some_iff.mp value
    obtain ⟨_, known, range⟩ := operandWhole.inRange e (mem_subtrees_self e)
    cases operandExact.symm.trans known
    obtain ⟨v, rfl⟩ := Whole.exists_toInt_eq range
    exact eval_negation_eq_integer_iff.mpr ⟨v, ih operandWhole operandExact, opposite.symm⟩
  | call0 | call1 | call2 => cases value

/-- A formula has a whole number as its value exactly if it has no call and no real, and all its nodes have
exact values of 64 bits, the exponents of 32; then the number is the exact value. -/
theorem eval_eq_integer_iff_exact (e : Expr) :
    (∀ n : Int64, e.eval = .ok (.integer n) ↔
      e.IsWholeArithmetic ∧ e.StaysWhole ∧ e.exactValue? = some n.toInt) ∧
    (e.StaysWhole → ∃ n : Int64, e.exactValue? = some n.toInt ∧ e.eval = .ok (.integer n)) := by
  constructor
  · intro n
    constructor
    · intro evaluates
      obtain ⟨whole, value⟩ := staysWhole_of_eval evaluates
      exact ⟨whole.isWholeArithmetic, whole, value⟩
    · rintro ⟨-, whole, value⟩
      exact eval_of_staysWhole whole value
  · intro whole
    obtain ⟨m, value, range⟩ := whole.inRange e (mem_subtrees_self e)
    obtain ⟨n, rfl⟩ := Whole.exists_toInt_eq range
    exact ⟨n, value, eval_of_staysWhole whole value⟩

def leastAsPower : Expr :=
  .binary .div (.binary .pow (.negation (.number (.integer 2) 1) 0) (.number (.integer 63) 4) 3)
    (.number (.integer 1) 7) 6

theorem eval_leastAsPower :
    leastAsPower.StaysWhole ∧
      ∃ n : Int64, leastAsPower.exactValue? = some n.toInt ∧ leastAsPower.eval = .ok (.integer n) := by
  have whole : leastAsPower.StaysWhole := (staysWhole_of_eval (n := Int64.minValue) rfl).1
  exact ⟨whole, (eval_eq_integer_iff_exact leastAsPower).2 whole⟩

end Expr

end Calculator
