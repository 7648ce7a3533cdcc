import Calculator.Proofs.Binary64.ShownAgain
import Calculator.Proofs.Decimal.ReadBack

namespace Calculator.Value

open Binary64 (roundShown shownUnits shownValue IsShown IsMovedOn)
open Decimal (showUnits shownText)

variable {x : Float} {p q : ℚ}

/-- The text is read as a number, and that number is shown as the text. -/
def ShowsItself (text : String) : Prop := ∃ v, read text = .ok v ∧ v.render .decimal = text

theorem render_real_eq (known : Binary64.exactValue? x = some q) :
    (real x).render .decimal = String.ofList (shownText (shownValue q)) := congrArg String.ofList (Decimal.showReal_eq known)

theorem eq_of_shownText_eq (left : IsShown p) (right : IsShown q) (same : shownText p = shownText q) : p = q := by
  obtain ⟨y, reads, known⟩ := Decimal.read_shownText left
  obtain ⟨z, reads', known'⟩ := Decimal.read_shownText right
  rw [same, reads'] at reads
  cases reads
  exact Option.some.inj (known.symm.trans known')

theorem showsItself_shownText_iff (shown : IsShown q) :
    ShowsItself (String.ofList (shownText q)) ↔ ¬ IsMovedOn q := by
  obtain ⟨y, reads, known⟩ := Decimal.read_shownText shown
  constructor
  · rintro ⟨v, reads', same⟩ moved
    rw [reads] at reads'
    cases reads'
    rw [render_real_eq known, String.ofList_inj] at same
    have fixed := eq_of_shownText_eq (Binary64.exactValue?_roundShown known).2 shown same
    have next := (Binary64.shownValue_of_movedOn shown moved).2.1
    rw [fixed] at next
    omega
  · intro stays
    refine ⟨.real y, reads, ?_⟩
    rw [render_real_eq known, Binary64.shownValue_of_not_movedOn shown stays]

/-- A shown real is read as the real that was shown, and shows itself unless that real is moved on. Then it shows the
next unit of the last place, and the text of that shows itself. -/
theorem showsItself_render_real (finite : x.isFinite = true) :
    ∃ y q, read ((real x).render .decimal) = .ok (.real y) ∧
      Binary64.exactValue? (roundShown x) = some q ∧ Binary64.exactValue? y = some q ∧
      (ShowsItself ((real x).render .decimal) ↔ ¬ IsMovedOn q) ∧
      (IsMovedOn q → 2 ^ 18 ≤ |q| ∧ ShowsItself ((real y).render .decimal) ∧
        ∃ sign units, ((real x).render .decimal).toList = sign ++ showUnits 10 units ∧
          ((real y).render .decimal).toList = sign ++ showUnits 10 (units + 1)) := by
  obtain ⟨a, value⟩ := Binary64.isFinite_iff_exactValue?.mp finite
  obtain ⟨rounded, shown⟩ := Binary64.exactValue?_roundShown value
  obtain ⟨y, reads, known⟩ := Decimal.read_shownText shown
  rw [render_real_eq value]
  refine ⟨y, shownValue a, reads, rounded, known, showsItself_shownText_iff shown, fun moved => ?_⟩
  obtain ⟨large, next, stays, sign⟩ := Binary64.shownValue_of_movedOn shown moved
  have again := (Binary64.exactValue?_roundShown known).2
  rw [render_real_eq known, String.toList_ofList, String.toList_ofList]
  refine ⟨large, (showsItself_shownText_iff again).mpr stays, _, _, rfl, ?_⟩
  have counted := Binary64.shownUnits_nonneg (shownValue a)
  have units : (shownUnits (shownValue (shownValue a))).toNat = (shownUnits (shownValue a)).toNat + 1 := by omega
  simp only [shownText, sign, units]

theorem showsItself_render_real_tenth : (0.1 : Float).isFinite = true ∧
    ∃ y q, read ((real 0.1).render .decimal) = .ok (.real y) ∧
      Binary64.exactValue? (roundShown 0.1) = some q ∧ Binary64.exactValue? y = some q ∧
      (ShowsItself ((real 0.1).render .decimal) ↔ ¬ IsMovedOn q) ∧
      (IsMovedOn q → 2 ^ 18 ≤ |q| ∧ ShowsItself ((real y).render .decimal) ∧
        ∃ sign units, ((real 0.1).render .decimal).toList = sign ++ showUnits 10 units ∧
          ((real y).render .decimal).toList = sign ++ showUnits 10 (units + 1)) := by
  have finite : (0.1 : Float).isFinite = true := by rfl
  exact ⟨finite, showsItself_render_real finite⟩

/-- The real that is read is past its text by a little more than a quarter of a unit of the last place. -/
theorem not_showsItself_render_real : (300000.02999999997 : Float).isFinite = true ∧
    (real 300000.02999999997).render .decimal = "300000.03" ∧ read "300000.03" = .ok (.real 300000.03) ∧
    (real 300000.03).render .decimal = "300000.0300000001" ∧
    ¬ ShowsItself ((real 300000.02999999997).render .decimal) := by
  have run : (300000.02999999997 : Float).isFinite = true ∧
      (real 300000.02999999997).render .decimal = "300000.03" ∧ read "300000.03" = .ok (.real 300000.03) ∧
      (real 300000.03).render .decimal = "300000.0300000001" := by decide +kernel
  obtain ⟨finite, shown, reads, next⟩ := run
  refine ⟨finite, shown, reads, next, ?_⟩
  rintro ⟨v, reads', same⟩
  rw [shown, reads] at reads'
  cases reads'
  rw [shown, next] at same
  exact absurd same (by decide)

end Calculator.Value
