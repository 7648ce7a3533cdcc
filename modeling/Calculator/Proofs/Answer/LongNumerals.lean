import Calculator.Proofs.Answer.Numerals
import Calculator.Proofs.Binary64.NaturalNumbers
import Calculator.Proofs.Formula.Literals
import Calculator.Proofs.Token.Scanning
import Calculator.Proofs.Value

namespace Calculator

open Token (IsRun Lexeme Cut scan)
open Binary64 (nearestReal?)

section Values

variable {base : NumeralBase} {run : List Char}

theorem ofDigitChars_mono {b b' : ℕ} (bases : b ≤ b') (digits : List Char) {n n' : ℕ} (values : n ≤ n') :
    Nat.ofDigitChars b digits n ≤ Nat.ofDigitChars b' digits n' := by
  induction digits generalizing n n' with
  | nil => exact values
  | cons c digits ih =>
    rw [Nat.ofDigitChars_cons, Nat.ofDigitChars_cons]
    exact ih (Nat.add_le_add_right (Nat.mul_le_mul bases values) _)

theorem NumeralBase.valueOf_le (base : NumeralBase) (digits : List Char) :
    base.valueOf digits ≤ Decimal.valueOf digits := ofDigitChars_mono base.radix_bounds.2 digits (Nat.le_refl 0)

def decimalReal (run : List Char) : Float := Decimal.toReal ⟨Decimal.valueOf run, 0⟩

theorem exactValue?_decimalReal (run : List Char) :
    Binary64.exactValue? (decimalReal run) = nearestReal? (Decimal.valueOf run) := Decimal.exactValue?_toReal_whole _

theorem twoPow_le_of_nearestReal? {q a : ℚ} {e : ℤ} (least : -1074 ≤ e) (bound : 2 ^ e ≤ q)
    (nearest : nearestReal? q = some a) : 2 ^ e ≤ a := by
  have rounds := Binary64.rounded_mono bound
  rw [Binary64.rounded_twoPow least] at rounds
  by_cases finite : |Binary64.rounded q| < 2 ^ 1024
  · rw [nearestReal?, if_pos finite] at nearest
    rwa [← Option.some.inj nearest]
  · rw [nearestReal?, if_neg finite] at nearest
    cases nearest

end Values

section Answers

variable {base : NumeralBase} {last v : Value} {formula run : List Char}

theorem compute_of_number {p : ℕ} (parsed : Expr.ofFormula base last formula = .ok (.number v p))
    (finite : v.isFinite = true) :
    Answer.compute base last (String.ofList formula) = .ok (Answer.ofValue base v.normalized) := by
  have answer : (Expr.number v p).answer = .ok v.normalized := by
    simp [Expr.answer, Expr.eval, Value.checked, finite, Bind.bind, Except.bind, Pure.pure, Except.pure]
  rw [compute_of_ofFormula parsed]
  simp only [Answer.ofExpr, answer]
  rfl

theorem prepare_closed_run (other : base ≠ .decimal) (isRun : IsRun base.isDigit run) :
    Formula.prepare base (Formula.closeParentheses run) = .ok (Formula.literalInDecimal base run) := by
  rw [Formula.closeParentheses_of_isRun (NumeralBase.isRun_isDigit isRun), Formula.prepare_of_isRun other isRun]

theorem compute_short_run (other : base ≠ .decimal) (isRun : IsRun base.isDigit run)
    (short : (base.valueOf run : ℤ) ≤ Whole.greatest) : Answer.compute base last (String.ofList run) =
      .ok (Answer.ofValue base (.integer (Int64.ofInt (base.valueOf run)))) := by
  have prepares := prepare_closed_run other isRun
  rw [Formula.literalInDecimal_of_isRun isRun, if_pos short] at prepares
  have scans := Token.scan_of_scans (Token.scans_whole 0 short (Text.leaves_nil _))
  have parsed : Expr.ofFormula base last run = .ok (.number (.integer (Int64.ofInt (base.valueOf run))) 0) := by
    rw [ofFormula_of_stages prepares scans]
    exact Expr.ofTokens_of_factor .integer (by decide) (Nat.zero_le _)
  exact compute_of_number parsed rfl

theorem leads_run (isRun : IsRun Char.isDigit run) : Token.Leads (.whole run) (run ++ []) :=
  Token.leads_of_longest? (l := .whole run) isRun (Token.longest?_text (l := .whole run) isRun)

theorem prepare_long_run (other : base ≠ .decimal) (isRun : IsRun base.isDigit run)
    (long : Whole.greatest < base.valueOf run) :
    Formula.prepare base (Formula.closeParentheses run) = .ok run := by
  rw [prepare_closed_run other isRun, Formula.literalInDecimal_of_isRun isRun, if_neg (Int.not_le.mpr long)]

theorem long_in_decimal (long : Whole.greatest < base.valueOf run) : Whole.greatest < Decimal.valueOf run :=
  Int.lt_of_lt_of_le long (Int.ofNat_le.mpr (base.valueOf_le run))

theorem compute_long_run (other : base ≠ .decimal) (isRun : IsRun base.isDigit run)
    (long : Whole.greatest < base.valueOf run) (finite : (decimalReal run).isFinite = true) :
    Answer.compute base last (String.ofList run) =
      .ok (Answer.ofValue base (Value.real (decimalReal run)).normalized) := by
  have digits := NumeralBase.isRun_isDigit isRun
  have cut : Cut (run ++ []) [.whole run] [] := .cons (leads_run digits) (.nil [])
  have allFinite : ∀ l ∈ [Lexeme.whole run], l.IsFinite := by
    intro l member x real
    cases List.mem_singleton.mp member
    cases real
    exact finite
  have symbol : (Lexeme.whole run).symbol? = some (.real (decimalReal run)) :=
    if_neg (Int.not_le.mpr (long_in_decimal long))
  have scans := Token.scan_of_cut_end cut allFinite
  rw [List.append_nil, Token.tokensOf, symbol] at scans
  have parsed : Expr.ofFormula base last run = .ok (.number (.real (decimalReal run)) 0) := by
    rw [ofFormula_of_stages (prepare_long_run other isRun long) scans]
    exact Expr.ofTokens_of_factor .real (by decide) (Nat.zero_le _)
  exact compute_of_number parsed finite

theorem compute_too_long_run (other : base ≠ .decimal) (isRun : IsRun base.isDigit run)
    (long : Whole.greatest < base.valueOf run) (infinite : ¬ (decimalReal run).isFinite = true) :
    Answer.compute base last (String.ofList run) = .error (.parse ⟨.literalTooLarge, 0⟩) := by
  have digits := NumeralBase.isRun_isDigit isRun
  have unscannable : Token.Unscannable (run ++ []) .literalTooLarge :=
    .literalTooLarge (leads_run digits) fun finite => infinite (finite _ rfl)
  have scans : scan run = .error ⟨.literalTooLarge, 0⟩ := by
    have fails := Token.scan_of_cut_unscannable (.nil _) nofun unscannable
    rwa [List.append_nil] at fails
  have fails : Expr.ofFormula base last run = .error ⟨.literalTooLarge, 0⟩ := by
    simp only [Expr.ofFormula, prepare_long_run other isRun long, scans, Bind.bind, Except.bind]
  simp only [Answer.compute, String.toList_ofList, fails]

theorem normalized_decimalReal {a : ℚ} (long : Whole.greatest < Decimal.valueOf run)
    (nearest : nearestReal? (Decimal.valueOf run) = some a) :
    (Value.real (decimalReal run)).normalized = .real (decimalReal run) := by
  have exact : Binary64.exactValue? (decimalReal run) = some a := (exactValue?_decimalReal run).trans nearest
  have bound : (2 : ℚ) ^ (63 : ℤ) ≤ Decimal.valueOf run := by
    unfold Whole.greatest at long
    have past : 9223372036854775808 ≤ Decimal.valueOf run := by omega
    calc (2 : ℚ) ^ (63 : ℤ) = (9223372036854775808 : ℕ) := by norm_num
      _ ≤ Decimal.valueOf run := by exact_mod_cast past
  have large := twoPow_le_of_nearestReal? (by decide) bound nearest
  cases whole : (Value.real (decimalReal run)).toWhole? with
  | none => rw [Value.normalized, whole]
  | some n =>
    have value : some a = some (n.toInt : ℚ) := exact.symm.trans (Value.toWhole?_eq_some_iff.mp whole)
    have small : (n.toInt : ℚ) < 2 ^ (63 : ℤ) := by
      calc (n.toInt : ℚ) < (9223372036854775808 : ℤ) := by exact_mod_cast n.toInt_lt
        _ = 2 ^ (63 : ℤ) := by norm_num
    rw [Option.some.inj value] at large
    exact absurd large (not_le.mpr small)

/-- A run of digits of base 2 or 8 is answered by the number it stands for in that base, if that fits 64 bits. A
longer one is answered by the real nearest to the number that its digits stand for in decimal, which is no whole
number of 64 bits either, and it is too large a literal if no finite real is. -/
theorem compute_run (other : base ≠ .decimal) (last : Value) (isRun : IsRun base.isDigit run) :
    (base.valueOf run ≤ Whole.greatest → ∃ n : Int64, n.toInt = base.valueOf run ∧
      Answer.compute base last (String.ofList run) =
        .ok ⟨String.ofList (base.digits (base.valueOf run)), .integer n⟩) ∧
    (Whole.greatest < base.valueOf run →
      (∀ a, nearestReal? (Decimal.valueOf run) = some a → ∃ x, Binary64.exactValue? x = some a ∧
        Answer.compute base last (String.ofList run) = .ok (Answer.ofValue base (.real x))) ∧
      (nearestReal? (Decimal.valueOf run) = none →
        Answer.compute base last (String.ofList run) = .error (.parse ⟨.literalTooLarge, 0⟩))) := by
  refine ⟨?_, fun long => ⟨?_, ?_⟩⟩
  · intro short
    have known : Whole.ofInt? (base.valueOf run) = some (Int64.ofInt (base.valueOf run)) :=
      if_pos ⟨by unfold Whole.least; omega, short⟩
    have same := Whole.toInt_of_ofInt? known
    refine ⟨_, same, (compute_short_run other isRun short).trans ?_⟩
    simp only [Answer.ofValue, Value.render, same, NumeralBase.showInt_of_nonneg (Int.natCast_nonneg _),
      Int.natAbs_natCast]
  · intro a nearest
    have exact : Binary64.exactValue? (decimalReal run) = some a := (exactValue?_decimalReal run).trans nearest
    have finite := Binary64.isFinite_iff_exactValue?.mpr ⟨a, exact⟩
    refine ⟨decimalReal run, exact, ?_⟩
    rw [compute_long_run other isRun long finite, normalized_decimalReal (long_in_decimal long) nearest]
  · intro past
    refine compute_too_long_run other isRun long fun finite => ?_
    obtain ⟨a, exact⟩ := Binary64.isFinite_iff_exactValue?.mp finite
    rw [← exactValue?_decimalReal, exact] at past
    cases past

def longOctal : List Char := '1' :: List.replicate 21 '0'

theorem isRun_longOctal : IsRun NumeralBase.octal.isDigit longOctal := ⟨by decide, List.all_eq_true.mp (by decide)⟩

/-- The number that the digits stand for in base 8 is a real, and not the answer to them. -/
theorem compute_longOctal_ne :
    IsRun NumeralBase.octal.isDigit longOctal ∧ NumeralBase.octal.valueOf longOctal = 9223372036854775808 ∧
      nearestReal? 9223372036854775808 = some 9223372036854775808 ∧
      ∀ x, Binary64.exactValue? x = some 9223372036854775808 →
        Answer.compute .octal (.integer 0) (String.ofList longOctal) ≠ .ok (Answer.ofValue .octal (.real x)) := by
  refine ⟨isRun_longOctal, by decide, ?_, ?_⟩
  · have power : (9223372036854775808 : ℚ) = 2 ^ (63 : ℤ) := by norm_num
    have small : |(9223372036854775808 : ℚ)| ≤ 2 ^ (63 : ℤ) := by norm_num
    rw [Binary64.nearestReal?_of_abs_le small (by decide) (by decide), power, Binary64.rounded_twoPow (by decide)]
  · intro x exact same
    have answer : Answer.compute .octal (.integer 0) (String.ofList longOctal) =
        .ok (Answer.ofValue .octal (.real 1000000000000000000000)) := by decide +kernel
    have other : Binary64.toInt? 1000000000000000000000 = some 1000000000000000000000 := by decide +kernel
    rw [answer] at same
    cases Value.real.inj (congrArg Answer.value (Except.ok.inj same))
    rw [Binary64.toInt?_eq_some_iff.mp other] at exact
    norm_num at exact

/-- A short numeral with a leading zero, and one past 64 bits. -/
theorem compute_octal_runs :
    IsRun NumeralBase.octal.isDigit ['0', '1', '7'] ∧ IsRun NumeralBase.octal.isDigit longOctal ∧
      (∃ n : Int64, n.toInt = 15 ∧
        Answer.compute .octal (.integer 7) (String.ofList ['0', '1', '7']) = .ok ⟨"17", .integer n⟩) ∧
      ∃ x, Binary64.exactValue? x = some 1000000000000000000000 ∧
        Answer.compute .octal (.integer 7) (String.ofList longOctal) = .ok (Answer.ofValue .octal (.real x)) := by
  have isRun : IsRun NumeralBase.octal.isDigit ['0', '1', '7'] := ⟨by decide, List.all_eq_true.mp (by decide)⟩
  have nearest : nearestReal? (Decimal.valueOf longOctal) = some 1000000000000000000000 := by
    have number : (Decimal.valueOf longOctal : ℚ) = (476837158203125 : ℤ) * 2 ^ (21 : ℤ) := by
      rw [show Decimal.valueOf longOctal = 1000000000000000000000 by decide]
      norm_num
    have small : |(Decimal.valueOf longOctal : ℚ)| ≤ 2 ^ (70 : ℤ) := by
      rw [number]
      norm_num
    rw [Binary64.nearestReal?_of_abs_le small (by decide) (by decide), number,
      Binary64.rounded_of_short (by norm_num) (by decide)]
    norm_num
  refine ⟨isRun, isRun_longOctal, ?_, ?_⟩
  · exact (compute_run (by decide) (.integer 7) isRun).1 (by decide)
  · exact ((compute_run (by decide) (.integer 7) isRun_longOctal).2 (by decide)).1 _ nearest

end Answers

end Calculator
