import Calculator.Proofs.Numeral

namespace Calculator.Whole

def InRange (n : Int) : Prop := least ≤ n ∧ n ≤ greatest

theorem inRange_toInt (w : Int64) : InRange w.toInt := by
  have lower := Int64.le_toInt w
  have upper := Int64.toInt_lt w
  unfold InRange least greatest
  omega

theorem ofInt?_eq_some_iff {n : Int} {w : Int64} : ofInt? n = some w ↔ w.toInt = n := by
  constructor
  · exact toInt_of_ofInt?
  · intro same
    rw [← same, ofInt?_toInt]

theorem exists_toInt_eq {n : Int} (inRange : InRange n) : ∃ w : Int64, w.toInt = n :=
  ⟨Int64.ofInt n, toInt_of_ofInt? (if_pos inRange)⟩

theorem add?_eq_some_iff {a b w : Int64} : add? a b = some w ↔ w.toInt = a.toInt + b.toInt :=
  ofInt?_eq_some_iff

theorem sub?_eq_some_iff {a b w : Int64} : sub? a b = some w ↔ w.toInt = a.toInt - b.toInt :=
  ofInt?_eq_some_iff

theorem mul?_eq_some_iff {a b w : Int64} : mul? a b = some w ↔ w.toInt = a.toInt * b.toInt :=
  ofInt?_eq_some_iff

theorem neg?_eq_some_iff {a w : Int64} : neg? a = some w ↔ w.toInt = -a.toInt := ofInt?_eq_some_iff

theorem neg?_eq_none {a : Int64} (past : neg? a = none) : a = Int64.minValue := by
  have lower := Int64.le_toInt a
  have upper := Int64.toInt_lt a
  have minimum : Int64.minValue.toInt = -9223372036854775808 := by decide
  rw [← Int64.toInt_inj, minimum]
  by_cases inRange : InRange (-a.toInt)
  · obtain ⟨w, opposite⟩ := exists_toInt_eq inRange
    rw [neg?_eq_some_iff.mpr opposite] at past
    cases past
  · unfold InRange least greatest at inRange
    omega

theorem exactDiv?_eq_some_iff {a b w : Int64} :
    exactDiv? a b = some w ↔ (b.toInt ≠ 0 ∧ b.toInt ∣ a.toInt) ∧ w.toInt = a.toInt / b.toInt := by
  rw [exactDiv?, Int.dvd_iff_emod_eq_zero]
  split
  · rename_i exact
    rw [ofInt?_eq_some_iff]
    exact ⟨fun quotient => ⟨exact, quotient⟩, And.right⟩
  · rename_i inexact
    exact ⟨nofun, fun both => absurd both.1 inexact⟩

theorem pow_parity {a : Int} (small : a.natAbs ≤ 1) {n : Nat} (large : 2 ≤ n) :
    Int.pow a (n % 2 + 2) = Int.pow a n := by
  have square : Int.pow a 4 = Int.pow a 2 := by
    have values : a = 0 ∨ a = 1 ∨ a = -1 := by omega
    rcases values with rfl | rfl | rfl <;> rfl
  have step (k : Nat) : Int.pow a (k + 2 + 2) = Int.pow a (k + 2) := by
    have split (j : Nat) : Int.pow a (k + j) = Int.pow a k * Int.pow a j := Int.pow_add a k j
    rw [Nat.add_assoc, split, split, square]
  induction n using Nat.strongRecOn with
  | ind n ih =>
    by_cases next : 4 ≤ n
    · obtain ⟨k, rfl⟩ := Nat.exists_eq_add_of_le' (show 2 + 2 ≤ n from next)
      have shorter := ih (k + 2) (by omega) (by omega)
      rw [← Nat.add_assoc, step, ← shorter, Nat.add_mod_right]
    · have values : n = 2 ∨ n = 3 := by omega
      rcases values with rfl | rfl <;> rfl

/-- A base of magnitude two or more leaves 64 bits by the 64th power. -/
theorem not_inRange_pow {a : Int} (large : 2 ≤ a.natAbs) {n : Nat} (exponent : 64 ≤ n) :
    ¬ InRange (Int.pow a n) := by
  have magnitude : (Int.pow a n).natAbs = a.natAbs ^ n := Int.natAbs_pow a n
  have grows : 2 ^ 64 ≤ a.natAbs ^ n :=
    Nat.le_trans (Nat.pow_le_pow_right (by decide) exponent) (Nat.pow_le_pow_left large n)
  unfold InRange least greatest
  omega

theorem pow?_eq_some_iff {a w : Int64} {n : Nat} :
    pow? a n = some w ↔ w.toInt = Int.pow a.toInt n := by
  unfold pow?
  split
  · exact ofInt?_eq_some_iff
  · rename_i large
    split
    · rename_i small
      rw [ofInt?_eq_some_iff, pow_parity small (by omega)]
    · rename_i base
      refine ⟨nofun, fun power => ?_⟩
      have inRange := inRange_toInt w
      rw [power] at inRange
      exact absurd inRange (not_inRange_pow (by omega) (by omega))

end Calculator.Whole
