import Calculator.Expr.Eval

namespace Calculator

def Supplied {α : Type} (outcome : Except DomainError α) : Prop := outcome ≠ .error .insufficientData

section Outcomes

variable {α β : Type} {outcome : Except DomainError α}

theorem supplied_ok (a : α) : Supplied (.ok a) := nofun

theorem supplied_error {e : DomainError} (other : e ≠ .insufficientData) :
    Supplied (.error e : Except DomainError α) := fun same => other (Except.error.inj same)

theorem Supplied.bind {next : α → Except DomainError β} (first : Supplied outcome)
    (following : ∀ a, Supplied (next a)) : Supplied (outcome >>= next) := by
  cases outcome with
  | ok a => exact following a
  | error e => exact supplied_error fun missing => first (missing ▸ rfl)

theorem Supplied.map {f : α → β} (first : Supplied outcome) : Supplied (outcome.map f) := by
  cases outcome with
  | ok a => exact supplied_ok _
  | error e => exact supplied_error fun missing => first (missing ▸ rfl)

theorem Supplied.ite {c : Prop} [Decidable c] {other : Except DomainError α} (first : Supplied outcome)
    (second : Supplied other) : Supplied (if c then outcome else other) := by
  split
  · exact first
  · exact second

end Outcomes

namespace Elementary

variable (a b : Float)

theorem supplied_divide : Supplied (Binary64.divide a b) := .ite (supplied_error nofun) (supplied_ok _)

theorem supplied_finite : Supplied (finite a) := .ite (supplied_ok _) (supplied_error nofun)

theorem supplied_ln : Supplied (ln a) :=
  .ite (supplied_error nofun) (.ite (supplied_error nofun) (supplied_ok _))

theorem supplied_log : Supplied (log a b) := by
  refine .ite (supplied_error nofun) (.ite (supplied_error nofun) ?_)
  exact (supplied_ln a).bind fun _ => (supplied_ln b).bind fun _ => supplied_ok _

theorem supplied_exp : Supplied (exp a) :=
  .ite (supplied_error nofun) (.ite (supplied_ok _) (supplied_finite _))

theorem supplied_realPower : Supplied (realPower a b) := by
  refine .ite ?_ (.ite (supplied_ok _) (supplied_error nofun))
  exact (supplied_ln a).bind fun _ => supplied_exp _

theorem supplied_integerPower (n : Int) : Supplied (integerPower a n) :=
  .ite (.ite (supplied_error nofun) (supplied_finite _)) (supplied_finite _)

theorem supplied_power : Supplied (power a b) := by
  unfold power
  split
  · exact .ite (supplied_integerPower a _) (supplied_realPower _ b)
  · exact .ite (supplied_error nofun) (supplied_realPower a b)

theorem supplied_sqrt : Supplied (sqrt a) := by
  refine .ite (supplied_error nofun) (.bind ?_ fun _ => supplied_ok _)
  exact (supplied_power a 0.5).bind fun _ => supplied_ok _

theorem supplied_nthroot : Supplied (nthroot a b) := by
  refine .ite (supplied_error nofun) (.ite (supplied_error nofun) (.bind ?_ fun root => ?_))
  · exact (supplied_power _ _).bind fun _ => supplied_ok _
  · dsimp only
    split <;> exact supplied_ok _

theorem supplied_factorial : Supplied (factorial a) := by
  refine .ite (supplied_error nofun) ?_
  split
  · exact supplied_error nofun
  · exact .ite (supplied_ok _) (supplied_error nofun)

theorem supplied_reduce : Supplied (reduce a) := .ite (supplied_ok _) (supplied_error nofun)

theorem supplied_sin : Supplied (sin a) := (supplied_reduce a).bind fun _ => supplied_ok _

theorem supplied_cos : Supplied (cos a) := (supplied_reduce a).bind fun _ => supplied_ok _

theorem supplied_tg : Supplied (tg a) :=
  (supplied_cos a).bind fun _ => .ite (supplied_error nofun) ((supplied_sin a).bind fun _ => supplied_ok _)

theorem supplied_cotg : Supplied (cotg a) :=
  (supplied_sin a).bind fun _ => .ite (supplied_error nofun) ((supplied_cos a).bind fun _ => supplied_ok _)

end Elementary

section Formulas

open Elementary

theorem Operator.supplied_apply (op : Operator) (a b : Value) : Supplied (op.apply a b) := by
  unfold apply
  split
  · exact supplied_ok _
  · refine .map ?_
    cases op with
    | add | sub | mul => exact supplied_ok _
    | div => exact supplied_divide _ _
    | pow => exact supplied_power _ _

def Function.Supplied : Function → Prop
  | .constant _ => True
  | .unary f => ∀ a, Calculator.Supplied (f a)
  | .binary f => ∀ a b, Calculator.Supplied (f a b)

theorem Function.supplied_table : ∀ entry ∈ table, entry.2.Supplied := by
  simp only [table, List.forall_mem_cons, List.not_mem_nil, false_implies, implies_true, and_true]
  exact ⟨supplied_sin, supplied_cos, supplied_tg, supplied_cotg, supplied_ln, supplied_log, supplied_sqrt,
    supplied_sqrt, supplied_nthroot, supplied_nthroot, supplied_nthroot, fun a => supplied_nthroot a 3,
    fun _ => supplied_ok _, supplied_factorial, trivial, trivial, trivial⟩

theorem Function.supplied_of_find? {name : String} {f : Function} (known : find? name = some f) : f.Supplied := by
  obtain ⟨before, behind, split, -⟩ := List.lookup_eq_some_iff.mp known
  exact supplied_table (Text.foldName name, f) (by simp [split])

theorem Function.supplied_outcome {f : Function} (supplied : f.Supplied) {arguments : List Value}
    {outcome : Except DomainError Float} (applied : f.apply? arguments = some outcome) :
    Calculator.Supplied outcome := by
  unfold Function.apply? at applied
  split at applied
  · cases applied
    exact supplied_ok _
  · cases applied
    exact supplied _
  · cases applied
    exact supplied _ _
  · cases applied

end Formulas

end Calculator
