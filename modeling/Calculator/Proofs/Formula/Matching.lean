import Calculator.Answer
import Calculator.Proofs.Formula.Parentheses
import Mathlib.Data.Finset.Max
import Mathlib.Order.Bounds.Basic

namespace Calculator.Formula

structure Unmatched where
  opening : Finset ℕ
  closing : Finset ℕ

namespace Unmatched

def none : Unmatched := ⟨∅, ∅⟩

/-- The partner of a closing parenthesis is the nearest opening one before it that has none yet. -/
def next (u : Unmatched) (place : ℕ) (c : Char) : Unmatched :=
  if c = '(' then { u with opening := insert place u.opening }
  else if c = ')' then
    if unpaired : u.opening.Nonempty then { u with opening := u.opening.erase (u.opening.max' unpaired) }
    else { u with closing := insert place u.closing }
  else u

def read (u : Unmatched) (place : ℕ) : List Char → Unmatched
  | [] => u
  | c :: text => (u.next place c).read (place + 1) text

structure Before (u : Unmatched) (place : ℕ) : Prop where
  opening : ∀ p ∈ u.opening, p < place
  closing : ∀ p ∈ u.closing, p < place

variable {u : Unmatched} {place : ℕ}

theorem before_none (place : ℕ) : none.Before place := ⟨by simp [none], by simp [none]⟩

theorem forall_mem_insert_lt {places : Finset ℕ} (before : ∀ p ∈ places, p < place) :
    ∀ p ∈ insert place places, p < place + 1 := by
  intro p member
  by_cases here : p = place
  · omega
  · have earlier := before p (Finset.mem_of_mem_insert_of_ne member here)
    omega

theorem Before.next (before : u.Before place) (c : Char) : (u.next place c).Before (place + 1) := by
  have opening : ∀ p ∈ u.opening, p < place + 1 := fun p member => Nat.lt_succ_of_lt (before.opening p member)
  have closing : ∀ p ∈ u.closing, p < place + 1 := fun p member => Nat.lt_succ_of_lt (before.closing p member)
  unfold Unmatched.next
  split
  · exact ⟨forall_mem_insert_lt before.opening, closing⟩
  · split
    · split
      · exact ⟨fun p member => opening p (Finset.mem_of_mem_erase member), closing⟩
      · exact ⟨opening, forall_mem_insert_lt before.closing⟩
    · exact ⟨opening, closing⟩

/-- Each character changes the number of unmatched opening parentheses as it changes the counter. -/
theorem card_opening_next (before : u.Before place) (c : Char) :
    (u.next place c).opening.card = openAfter u.opening.card c := by
  unfold Unmatched.next openAfter
  split
  · have new : place ∉ u.opening := fun member => Nat.lt_irrefl _ (before.opening place member)
    exact Finset.card_insert_of_notMem new
  · split
    · split
      · rename_i unpaired
        exact Finset.card_erase_of_mem (u.opening.max'_mem unpaired)
      · rename_i paired
        rw [Finset.not_nonempty_iff_eq_empty.mp paired]
        rfl
    · rfl

theorem card_opening_read (before : u.Before place) (text : List Char) :
    (u.read place text).opening.card = text.foldl openAfter u.opening.card := by
  induction text generalizing u place with
  | nil => rfl
  | cons c text ih =>
    rw [read, ih (before.next c), card_opening_next before, List.foldl_cons]

theorem before_read (before : u.Before place) (text : List Char) :
    (u.read place text).Before (place + text.length) := by
  induction text generalizing u place with
  | nil => exact before
  | cons c text ih =>
    have behind := ih (before.next c)
    rw [Nat.add_right_comm] at behind
    exact behind

theorem read_append (u : Unmatched) (place : ℕ) (text more : List Char) :
    u.read place (text ++ more) = (u.read place text).read (place + text.length) more := by
  induction text generalizing u place with
  | nil => rfl
  | cons c text ih =>
    have shift : place + (text.length + 1) = place + 1 + text.length := by omega
    rw [List.cons_append, read, ih, read, List.length_cons, shift]

theorem card_closing_read_replicate (before : u.Before place) (m : ℕ) :
    (u.read place (List.replicate m ')')).closing.card = u.closing.card + (m - u.opening.card) := by
  induction m generalizing u place with
  | zero => simp [read]
  | succ m ih =>
    have fewer : (u.next place ')').opening.card = u.opening.card - 1 := card_opening_next before ')'
    rw [List.replicate_succ, read, ih (before.next ')'), fewer]
    by_cases unpaired : u.opening.Nonempty
    · have kept : (u.next place ')').closing = u.closing := by simp [Unmatched.next, unpaired]
      have positive := Finset.card_pos.mpr unpaired
      rw [kept]
      omega
    · have new : place ∉ u.closing := fun member => Nat.lt_irrefl _ (before.closing place member)
      have more : (u.next place ')').closing.card = u.closing.card + 1 := by
        simp [Unmatched.next, unpaired, Finset.card_insert_of_notMem new]
      have empty : u.opening.card = 0 := Finset.card_eq_zero.mpr (Finset.not_nonempty_iff_eq_empty.mp unpaired)
      rw [more, empty]
      omega

end Unmatched

def unmatched (text : List Char) : Unmatched := Unmatched.none.read 0 text

section Closing

variable {formula : List Char} {m : ℕ}

theorem card_unmatched_opening (text : List Char) : (unmatched text).opening.card = unclosed text :=
  Unmatched.card_opening_read (Unmatched.before_none 0) text

theorem unclosed_append_replicate (formula : List Char) (m : ℕ) :
    unclosed (formula ++ List.replicate m ')') = unclosed formula - m := by
  rw [unclosed, List.foldl_append, foldl_openAfter_replicate, ← unclosed]

theorem unmatched_opening_eq_empty_iff :
    (unmatched (formula ++ List.replicate m ')')).opening = ∅ ↔ unclosed formula ≤ m := by
  rw [← Finset.card_eq_zero, card_unmatched_opening, unclosed_append_replicate]
  omega

theorem card_unmatched_closing (formula : List Char) (m : ℕ) :
    (unmatched (formula ++ List.replicate m ')')).closing.card =
      (unmatched formula).closing.card + (m - unclosed formula) := by
  have before : (unmatched formula).Before (0 + formula.length) :=
    Unmatched.before_read (Unmatched.before_none 0) formula
  rw [unmatched, Unmatched.read_append, ← card_unmatched_opening]
  exact Unmatched.card_closing_read_replicate before m

theorem eq_unclosed_of_unmatched (matched : unmatched (formula ++ List.replicate m ')') = Unmatched.none) :
    m = unclosed formula := by
  have enough : unclosed formula ≤ m := unmatched_opening_eq_empty_iff.mp (by rw [matched]; rfl)
  have surplus := card_unmatched_closing formula m
  rw [matched] at surplus
  have noSurplus : Unmatched.none.closing.card = 0 := rfl
  omega

theorem closeParentheses_closeParentheses (formula : List Char) :
    closeParentheses (closeParentheses formula) = closeParentheses formula := by
  rw [closeParentheses, unclosed_closeParentheses]
  exact List.append_nil _

theorem compute_closeParentheses (base : NumeralBase) (last : Value) (formula : List Char) :
    Answer.compute base last (String.ofList (closeParentheses formula)) =
      Answer.compute base last (String.ofList formula) := by
  simp only [Answer.compute, Expr.ofFormula, String.toList_ofList, closeParentheses_closeParentheses]

/-- A formula is closed by as many parentheses as it has opening ones without a partner, which is the least
number that leaves none of them. A formula that is closed is answered as before, and one that some number of
parentheses balances is closed by that number. -/
theorem closeParentheses_least (formula : List Char) :
    closeParentheses formula = formula ++ List.replicate (unmatched formula).opening.card ')' ∧
      IsLeast {m | (unmatched (formula ++ List.replicate m ')')).opening = ∅} (unmatched formula).opening.card ∧
      closeParentheses (closeParentheses formula) = closeParentheses formula ∧
      (∀ base last, Answer.compute base last (String.ofList (closeParentheses formula)) =
        Answer.compute base last (String.ofList formula)) ∧
      ∀ m, unmatched (formula ++ List.replicate m ')') = Unmatched.none →
        closeParentheses formula = formula ++ List.replicate m ')' := by
  rw [card_unmatched_opening]
  refine ⟨rfl, ⟨?_, ?_⟩, closeParentheses_closeParentheses formula, ?_, ?_⟩
  · exact unmatched_opening_eq_empty_iff.mpr (Nat.le_refl _)
  · intro m enough
    exact unmatched_opening_eq_empty_iff.mp enough
  · intro base last
    exact compute_closeParentheses base last formula
  · intro m matched
    rw [closeParentheses, eq_unclosed_of_unmatched matched]

/-- The formula `(1)(2-(3` lacks two closing parentheses. -/
theorem closeParentheses_two :
    (unmatched ['(', '1', ')', '(', '2', '-', '(', '3']).opening = {3, 6} ∧
      unmatched (['(', '1', ')', '(', '2', '-', '(', '3'] ++ List.replicate 2 ')') = Unmatched.none ∧
      closeParentheses ['(', '1', ')', '(', '2', '-', '(', '3'] =
        ['(', '1', ')', '(', '2', '-', '(', '3'] ++ List.replicate 2 ')' := by
  have matched : unmatched (['(', '1', ')', '(', '2', '-', '(', '3'] ++ List.replicate 2 ')') = Unmatched.none := rfl
  exact ⟨by decide, matched, (closeParentheses_least _).2.2.2.2 2 matched⟩

end Closing

end Calculator.Formula
