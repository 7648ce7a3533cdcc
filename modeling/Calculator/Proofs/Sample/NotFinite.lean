import Calculator.CommandLine.Deviation
import Calculator.Proofs.Elementary.Exponential
import Calculator.Proofs.Sample.Variance

namespace Calculator.Sample

open Binary64 (exactValue? sign?)

variable {values : List Float} {x : Float}

theorem sqrt_zero : Elementary.sqrt 0 = .ok 0 := Elementary.eq_ok_of_toOption (by decide +kernel)

theorem sqrt_infinity : Elementary.sqrt Binary64.infinity = .error .overflow := by rfl

theorem atLeastZero_of_sign? (signed : sign? x = none ∨ sign? x = some .negative) : atLeastZero x = 0 := by
  refine if_neg fun above => ?_
  rw [Binary64.sign?_of_zero_lt above] at signed
  rcases signed with none | negative
  · cases none
  · cases negative

theorem sign?_length (several : 2 ≤ values.length) :
    sign? (Float.ofNat values.length) = some .positive ∧ sign? (Float.ofNat values.length - 1) = some .positive := by
  rcases length_cases several with ⟨q, known, least, known', least'⟩ | ⟨infinite, infinite'⟩
  · exact ⟨Binary64.sign?_of_pos known (by linarith), Binary64.sign?_of_pos known' (by linarith)⟩
  · exact ⟨congrArg Binary64.signOf? infinite, congrArg Binary64.signOf? infinite'⟩

theorem sign?_squaredMean (several : 2 ≤ values.length) :
    sign? (squaredMean values) = none ∨ sign? (squaredMean values) = some .positive := by
  unfold squaredMean
  cases signed : sign? (average values) with
  | none =>
    exact .inl (Binary64.sign?_eq_none_iff.mpr
      (Binary64.isNaN_mul_right (Binary64.sign?_eq_none_iff.mp signed) _))
  | some s =>
    rcases Binary64.sign?_mul (sign?_length several).1 signed with none | product
    · exact .inl (Binary64.sign?_eq_none_iff.mpr
        (Binary64.isNaN_mul_left (Binary64.sign?_eq_none_iff.mp none) _))
    · have square := Binary64.sign?_mul product signed
      rwa [show Float.Model.UnpackedFloat.Sign.positive * s * s = .positive by cases s <;> rfl] at square

theorem standardDeviation_of_squaredMean_not_finite (several : 2 ≤ values.length)
    (past : ¬ (squaredMean values).isFinite = true) : standardDeviation values = .ok 0 := by
  rw [standardDeviation_eq several]
  suffices signed : sign? (variance values) = none ∨ sign? (variance values) = some .negative by
    rw [atLeastZero_of_sign? signed, sqrt_zero]
  have difference : sign? (sumOfSquares values - squaredMean values) = none ∨
      sign? (sumOfSquares values - squaredMean values) = some .negative := by
    rcases sign?_squaredMean several with none | positive
    · exact .inl (Binary64.sign?_eq_none_iff.mpr
        (Binary64.isNaN_sub_right (Binary64.sign?_eq_none_iff.mp none) _))
    · exact Binary64.sign?_sub_of_infinite _ (Binary64.unpack_of_sign? positive past)
  rcases difference with none | negative
  · exact .inl (Binary64.sign?_eq_none_iff.mpr
      (Binary64.isNaN_div_left (Binary64.sign?_eq_none_iff.mp none) _))
  · exact Binary64.sign?_div negative (sign?_length several).2

theorem isFinite_of_squaredMean (finite : (squaredMean values).isFinite = true) :
    (Float.ofNat values.length).isFinite = true ∧ (sum values).isFinite = true ∧ ∀ x ∈ values, x.isFinite = true := by
  obtain ⟨product, mean⟩ := Binary64.isFinite_of_mul finite
  have total := Binary64.isFinite_of_div mean
  exact ⟨(Binary64.isFinite_of_mul product).1, total, (isFinite_of_foldl total).2⟩

theorem standardDeviation_of_squares_not_finite (several : 2 ≤ values.length)
    (finite : (squaredMean values).isFinite = true) (past : ¬ (sumOfSquares values).isFinite = true) :
    standardDeviation values = .error .overflow := by
  obtain ⟨count, -, samples⟩ := isFinite_of_squaredMean finite
  have nonempty : values ≠ [] := List.ne_nil_of_length_pos (by omega)
  have squares := Binary64.unpack_of_sign? (sign?_sumOfSquares samples nonempty) past
  have infinite : variance values = Binary64.infinity := by
    rcases length_cases several with ⟨q, -, -, known, least⟩ | ⟨infinite, -⟩
    · exact Binary64.eq_of_infinite (Binary64.unpack_div_of_infinite
        (Binary64.unpack_sub_of_infinite squares finite) known (by linarith)) rfl
    · exact absurd count (Bool.eq_false_iff.mp (Binary64.isFinite_of_infinite infinite))
  rw [standardDeviation_eq several, infinite]
  exact sqrt_infinity

section Program

theorem deviationOf_zero (known : standardDeviation values = .ok 0) :
    CommandLine.deviationOf values = .success "0.0\n" := by
  have shown : Decimal.showReal 0 = ['0', '.', '0'] := by decide +kernel
  unfold CommandLine.deviationOf
  rw [known]
  simp only [shown]
  rfl

theorem deviationOf_overflow (known : standardDeviation values = .error .overflow) :
    CommandLine.deviationOf values = .failure DomainError.overflow.message := by
  unfold CommandLine.deviationOf
  rw [known]

theorem deviation_of_samples {standardInput : List UInt8} {text : List Char}
    (decoded : Text.decode? standardInput = some text) (read : (Text.words text).mapM Decimal.readReal? = some values) :
    CommandLine.deviation standardInput = CommandLine.deviationOf values := by
  unfold CommandLine.deviation
  rw [decoded]
  simp only [read]

end Program

/-- An error is reported exactly where only the squares overflow. Else the deviation is zero, and the program prints
that. -/
theorem standardDeviation_of_not_finite (several : 2 ≤ values.length)
    (past : (∃ x ∈ values, x.isFinite = false) ∨ (sum values).isFinite = false ∨
      (sumOfSquares values).isFinite = false) :
    standardDeviation values = (if (squaredMean values).isFinite then .error .overflow else .ok 0) ∧
      ∀ {standardInput text}, Text.decode? standardInput = some text →
        (Text.words text).mapM Decimal.readReal? = some values →
          CommandLine.deviation standardInput =
            if (squaredMean values).isFinite then .failure DomainError.overflow.message else .success "0.0\n" := by
  by_cases finite : (squaredMean values).isFinite = true
  · have squares : ¬ (sumOfSquares values).isFinite = true := by
      obtain ⟨-, total, samples⟩ := isFinite_of_squaredMean finite
      rcases past with ⟨x, inside, infinite⟩ | infinite | infinite
      · exact absurd (samples x inside) (Bool.eq_false_iff.mp infinite)
      · exact absurd total (Bool.eq_false_iff.mp infinite)
      · exact Bool.eq_false_iff.mp infinite
    have answer := standardDeviation_of_squares_not_finite several finite squares
    rw [if_pos finite, if_pos finite]
    exact ⟨answer, fun decoded read => (deviation_of_samples decoded read).trans (deviationOf_overflow answer)⟩
  · have answer := standardDeviation_of_squaredMean_not_finite several finite
    rw [if_neg finite, if_neg finite]
    exact ⟨answer, fun decoded read => (deviation_of_samples decoded read).trans (deviationOf_zero answer)⟩

theorem standardDeviation_of_great_opposites :
    2 ≤ [1e200, -1e200].length ∧ (sumOfSquares [1e200, -1e200]).isFinite = false ∧
      standardDeviation [1e200, -1e200] = .error .overflow := by
  have infinite : (sumOfSquares [1e200, -1e200]).isFinite = false := by decide +kernel
  have balanced : (squaredMean [1e200, -1e200]).isFinite = true := by decide +kernel
  refine ⟨le_rfl, infinite, ?_⟩
  rw [(standardDeviation_of_not_finite le_rfl (.inr (.inr infinite))).1, if_pos balanced]

theorem standardDeviation_ignores_not_a_number :
    Binary64.notANumber.isFinite = false ∧ standardDeviation [Binary64.notANumber, 1] = .ok 0 :=
  ⟨rfl, Elementary.eq_ok_of_toOption (by decide +kernel)⟩

end Calculator.Sample
