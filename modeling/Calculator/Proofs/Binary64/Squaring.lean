import Calculator.Proofs.Binary64.Representable
import Calculator.Proofs.Binary64.Values

namespace Calculator.Binary64

variable {x r f : Float} {a : ℚ}

theorem mulPow_zero (r f : Float) : mulPow r f 0 = r := by rw [mulPow, if_pos rfl]

theorem mulPow_step {n : ℕ} (positive : 0 < n) :
    mulPow r f n = mulPow (if n % 2 = 1 then r * f else r) (f * f) (n / 2) := by
  rw [mulPow, if_neg positive.ne']

section Powers

variable {total i j n : ℕ} (powers : ∀ k ≤ total, Representable (a ^ k))
include powers

theorem exactValue?_mul_powers (left : exactValue? x = some (a ^ i)) (right : exactValue? f = some (a ^ j))
    (used : i + j ≤ total) : exactValue? (x * f) = some (a ^ (i + j)) := by
  rw [exactValue?_mul left right, ← pow_add]
  exact powers (i + j) used

/-- The result and the factor are the powers `i` and `j` of the base, and `i + j * n` stays what it is. -/
theorem exactValue?_mulPow (result : exactValue? r = some (a ^ i)) (factor : exactValue? f = some (a ^ j))
    (count : i + j * n = total) : exactValue? (mulPow r f n) = some (a ^ total) := by
  induction n using Nat.strongRecOn generalizing r f i j with
  | ind n ih =>
    by_cases finished : n = 0
    · subst finished
      rw [mulPow_zero, result, ← count, Nat.mul_zero, Nat.add_zero]
    have parity : n = 2 * (n / 2) + n % 2 := (Nat.div_add_mod n 2).symm
    have halves : j * n = (j + j) * (n / 2) + j * (n % 2) := by
      nth_rewrite 1 [parity]
      ring
    have next : exactValue? (if n % 2 = 1 then r * f else r) = some (a ^ (i + j * (n % 2))) := by
      by_cases odd : n % 2 = 1
      · rw [if_pos odd, odd, Nat.mul_one]
        refine exactValue?_mul_powers powers result factor ?_
        rw [odd] at halves
        omega
      · have even : n % 2 = 0 := by omega
        rw [if_neg odd, even, Nat.mul_zero, Nat.add_zero, result]
    rw [mulPow_step (Nat.pos_of_ne_zero finished)]
    by_cases last : n / 2 = 0
    · -- the factor is squared once more, but that square is not used
      rw [last, Nat.mul_zero] at halves
      rw [last, mulPow_zero, next]
      congr 2
      omega
    · have square : j + j ≤ (j + j) * (n / 2) := Nat.le_mul_of_pos_right _ (Nat.pos_of_ne_zero last)
      refine ih (n / 2) (by omega) next (exactValue?_mul_powers powers factor factor (by omega)) ?_
      omega

end Powers

theorem exactValue?_natPow {n : ℕ} (base : exactValue? x = some a) (power : Representable (a ^ n)) :
    exactValue? (natPow x n) = some (a ^ n) := by
  have one : exactValue? 1 = some (a ^ 0) := by rw [pow_zero, exactValue?_ofNat_one]
  have first : exactValue? x = some (a ^ 1) := by rw [pow_one, base]
  refine exactValue?_mulPow (fun k ordered => ?_) one first (by rw [Nat.zero_add, Nat.one_mul])
  exact Representable.pow_of_le (nearestReal?_of_exactValue? base) power ordered

theorem toInt?_natPow {i : ℤ} {n : ℕ} (base : toInt? x = some i) (short : |i ^ n| ≤ 2 ^ 53) :
    toInt? (natPow x n) = some (i ^ n) := by
  have whole : Representable ((i : ℚ) ^ n) := by
    have nearest := nearestReal?_of_short short
    rwa [Int.cast_pow] at nearest
  rw [toInt?_eq_some_iff] at base ⊢
  rw [exactValue?_natPow base whole, Int.cast_pow]

end Calculator.Binary64
