import Calculator.Sample
import Calculator.Proofs.Binary64.NaturalNumbers
import Calculator.Proofs.Binary64.Scaling
import Calculator.Proofs.Binary64.Signs

namespace Calculator.Sample

open Binary64 (exactValue? sign? rounded nearestReal?)

variable {values : List Float} {x start : Float} {n : ℕ}

section Parts

def average (values : List Float) : Float := sum values / Float.ofNat values.length

def sumOfSquares (values : List Float) : Float := sum (values.map fun x => x * x)

def squaredMean (values : List Float) : Float := Float.ofNat values.length * average values * average values

def variance (values : List Float) : Float :=
  (sumOfSquares values - squaredMean values) / (Float.ofNat values.length - 1)

end Parts

section Length

theorem length_cases (several : 2 ≤ n) :
    (∃ q, exactValue? (Float.ofNat n) = some q ∧ 2 ≤ q ∧
      exactValue? (Float.ofNat n - 1) = some (rounded (q - 1)) ∧ 1 ≤ rounded (q - 1)) ∨
      (Float.ofNat n).toModel.unpack = .infinity .positive ∧
        (Float.ofNat n - 1).toModel.unpack = .infinity .positive := by
  cases known : exactValue? (Float.ofNat n) with
  | none =>
    have infinite := Binary64.unpack_ofNat_of_overflow known
    exact .inr ⟨infinite, Binary64.unpack_sub_of_infinite infinite
      (Binary64.isFinite_iff_exactValue?.mpr ⟨1, Binary64.exactValue?_ofNat_one⟩)⟩
  | some q =>
    have value := Binary64.exactValue?_ofNat n
    rw [known, nearestReal?] at value
    have two : rounded ((2 : ℤ) : ℚ) = (2 : ℤ) := Binary64.rounded_intCast (by norm_num)
    have one : rounded ((1 : ℤ) : ℚ) = (1 : ℤ) := Binary64.rounded_intCast (by norm_num)
    have least : 2 ≤ q := by
      split at value
      · rw [Option.some.inj value, ← Int.cast_ofNat, ← two]
        exact Binary64.rounded_mono (by exact_mod_cast several)
      · cases value
    refine .inl ⟨q, rfl, least, ?_, ?_⟩
    · rw [Binary64.exactValue?_sub known Binary64.exactValue?_ofNat_one]
      refine (Binary64.representable_of_exactValue? known).nearestReal?_of_abs_le ?_
      rw [abs_of_nonneg (by linarith)]
      exact sub_le_self q zero_le_one
    · have ordered : rounded ((1 : ℤ) : ℚ) ≤ rounded (q - 1) := Binary64.rounded_mono (by push_cast; linarith)
      rwa [one, Int.cast_one] at ordered

theorem length_ne_zero (several : 2 ≤ n) : (Float.ofNat n == 0) = false ∧ (Float.ofNat n - 1 == 0) = false := by
  rcases length_cases several with ⟨q, known, least, known', least'⟩ | ⟨infinite, infinite'⟩
  · rw [Bool.eq_false_iff, Bool.eq_false_iff, ne_eq, ne_eq, Binary64.beq_zero_iff known, Binary64.beq_zero_iff known']
    constructor <;> linarith
  · exact ⟨Binary64.beq_zero_of_infinite infinite, Binary64.beq_zero_of_infinite infinite'⟩

theorem standardDeviation_eq (several : 2 ≤ values.length) :
    standardDeviation values = Elementary.sqrt (atLeastZero (variance values)) := by
  obtain ⟨divides, divides'⟩ := length_ne_zero several
  have nonempty : values ≠ [] := by
    rintro rfl
    cases several
  have mean_eq : mean values = .ok (average values) := by
    unfold mean Binary64.divide
    rw [if_neg nonempty, divides]
    rfl
  unfold standardDeviation Binary64.divide
  rw [if_neg (by omega), mean_eq]
  change ((if (Float.ofNat values.length - 1 == 0) = true then Except.error DomainError.divisionByZero
    else .ok (variance values)) >>= fun variance => Elementary.sqrt (atLeastZero variance)) = _
  rw [divides']
  rfl

end Length

section Sums

theorem isFinite_of_foldl (finite : (values.foldl (· + ·) start).isFinite = true) :
    start.isFinite = true ∧ ∀ x ∈ values, x.isFinite = true := by
  induction values generalizing start with
  | nil => exact ⟨finite, nofun⟩
  | cons x rest ih =>
    obtain ⟨first, others⟩ := ih finite
    obtain ⟨begun, head⟩ := Binary64.isFinite_of_add first
    exact ⟨begun, List.forall_mem_cons.mpr ⟨head, others⟩⟩

theorem sign?_foldl (begun : sign? start = some .positive) (signed : ∀ x ∈ values, sign? x = some .positive) :
    sign? (values.foldl (· + ·) start) = some .positive := by
  induction values generalizing start with
  | nil => exact begun
  | cons x rest ih =>
    obtain ⟨head, others⟩ := List.forall_mem_cons.mp signed
    exact ih (Binary64.sign?_add begun head) others

theorem sign?_sumOfSquares (finite : ∀ x ∈ values, x.isFinite = true) (nonempty : values ≠ []) :
    sign? (sumOfSquares values) = some .positive := by
  obtain ⟨x, rest, rfl⟩ := List.exists_cons_of_ne_nil nonempty
  obtain ⟨head, others⟩ := List.forall_mem_cons.mp finite
  unfold sumOfSquares sum
  rw [List.map_cons, List.foldl_cons]
  refine sign?_foldl (Binary64.sign?_negativeZero_add (Binary64.sign?_square head)) fun y inside => ?_
  obtain ⟨z, member, rfl⟩ := List.mem_map.mp inside
  exact Binary64.sign?_square (others z member)

end Sums

end Calculator.Sample
