import Calculator.Answer
import Calculator.Proofs.Expr.Recognition
import Calculator.Proofs.Formula.Words
import Calculator.Proofs.Token.Lexeme

namespace Calculator

open Formula (prepare closeParentheses separatorMark)
open Token (Scans scan)

def IsSign (text : List Char) : Prop := text = [] ∨ text = ['-']

theorem IsSign.separates {sign : List Char} (h : IsSign sign) : Formula.Separates sign := by
  rcases h with rfl | rfl <;> intro c member
  · cases member
  · rw [List.mem_singleton.mp member]
    decide

theorem signed_digits_plain {sign : List Char} {base : NumeralBase} {m : Nat} {c : Char}
    (isSign : IsSign sign) (member : c ∈ sign ++ base.digits m) : c = '-' ∨ c.isDigit = true := by
  rcases List.mem_append.mp member with member | member
  · rcases isSign with rfl | rfl
    · cases member
    · exact .inl (List.mem_singleton.mp member)
  · exact .inr (NumeralBase.isDigit_of_mem_digits member)

theorem not_mem_signed_digits {sign : List Char} {base : NumeralBase} {m : Nat} {c : Char}
    (isSign : IsSign sign) (other : c ≠ '-' ∧ c.isDigit = false) : c ∉ sign ++ base.digits m := by
  intro member
  rcases signed_digits_plain isSign member with minus | digit
  · exact other.1 minus
  · rw [other.2] at digit
    cases digit

theorem closeParentheses_numeral {sign : List Char} (base : NumeralBase) (m : Nat) (isSign : IsSign sign) :
    closeParentheses (sign ++ base.digits m) = sign ++ base.digits m := by
  have plain : ∀ c ∈ sign ++ base.digits m, c ≠ '(' ∧ c ≠ ')' := by
    intro c member
    constructor
    · intro opens
      subst c
      exact not_mem_signed_digits isSign (by decide) member
    · intro closes
      subst c
      exact not_mem_signed_digits isSign (by decide) member
  rw [closeParentheses, Formula.unclosed, Formula.unclosed_append_plain plain]
  exact List.append_nil _

theorem literalsInDecimal_numeral {sign : List Char} {base : NumeralBase} {m : Nat} (isSign : IsSign sign)
    (inRange : base = .decimal ∨ (m : Int) ≤ Whole.greatest) :
    Formula.literalsInDecimal base (sign ++ base.digits m) = sign ++ NumeralBase.decimal.digits m := by
  by_cases decimal : base = .decimal
  · subst decimal
    exact if_pos rfl
  · have small := inRange.resolve_left decimal
    have word := Formula.mapWords_word (Formula.literalInDecimal base) (base.digits_ne_nil m)
      (fun _ => Formula.isWord_of_mem_digits) (Text.leaves_nil _)
    rw [List.append_nil, Formula.literalInDecimal_digits small] at word
    rw [Formula.literalsInDecimal, if_neg decimal, Formula.mapWords_separator _ _ isSign.separates, word,
      Formula.mapWords, List.append_nil]

theorem prepare_numeral {sign : List Char} (base : NumeralBase) {m : Nat} (isSign : IsSign sign)
    (inRange : base = .decimal ∨ (m : Int) ≤ Whole.greatest) :
    prepare base (sign ++ base.digits m) = .ok (sign ++ NumeralBase.decimal.digits m) := by
  have unmarked {base : NumeralBase} : separatorMark ∉ sign ++ base.digits m :=
    not_mem_signed_digits isSign (by decide)
  have noComma : ',' ∉ sign ++ NumeralBase.decimal.digits m := not_mem_signed_digits isSign (by decide)
  rw [Formula.prepare_of_unmarked _ unmarked, literalsInDecimal_numeral isSign inRange,
    Formula.decimalCommasToPoints_of_no_comma noComma unmarked]

theorem ofFormula_of_stages {base : NumeralBase} {last : Value} {formula prepared : List Char}
    {tokens : List Token} (prepares : prepare base (closeParentheses formula) = .ok prepared)
    (scans : scan prepared = .ok tokens) : Expr.ofFormula base last formula = Expr.ofTokens last tokens := by
  simp only [Expr.ofFormula, prepares, scans, Bind.bind, Except.bind]

theorem ofFormula_digits (base : NumeralBase) (last : Value) {m : Nat}
    (inRange : (m : Int) ≤ Whole.greatest) :
    Expr.ofFormula base last (base.digits m) = .ok (.number (.integer (Int64.ofInt m)) 0) := by
  have isSign : IsSign [] := .inl rfl
  have prepares := prepare_numeral base isSign (.inr inRange)
  have closed := closeParentheses_numeral base m isSign
  have scans := Token.scan_of_scans (Token.scans_whole 0 inRange (Text.leaves_nil _))
  rw [List.nil_append] at closed prepares
  rw [ofFormula_of_stages (closed.symm ▸ prepares) scans]
  exact Expr.ofTokens_of_factor .integer (by decide) (Nat.zero_le _)

theorem ofFormula_minus_digits (base : NumeralBase) (last : Value) {v : Value} {m : Nat} {s : Symbol}
    (inRange : base = .decimal ∨ (m : Int) ≤ Whole.greatest)
    (scansDigits : Scans 1 (NumeralBase.decimal.digits m) [] [⟨s, 1⟩])
    (number : Expr.Derives last .factor [⟨s, 1⟩] (.number v 1) 0) :
    Expr.ofFormula base last ('-' :: base.digits m) = .ok (.negation (.number v 1) 0) := by
  have isSign : IsSign ['-'] := .inr rfl
  have prepares := prepare_numeral base isSign inRange
  have closed := closeParentheses_numeral base m isSign
  have scansMinus : Scans 0 ['-'] (NumeralBase.decimal.digits m ++ []) [⟨.minus, 0⟩] :=
    Token.scans_mark rfl fun star => absurd star (by decide)
  have scans := Token.scan_of_scans (scansMinus.append scansDigits)
  rw [List.singleton_append] at closed
  rw [ofFormula_of_stages (closed.symm ▸ prepares) scans]
  exact Expr.ofTokens_of_factor (.negation number) (by decide) (Nat.zero_le _)

theorem compute_of_ofFormula {base : NumeralBase} {last : Value} {formula : List Char} {e : Expr}
    (parsed : Expr.ofFormula base last formula = .ok e) :
    Answer.compute base last (String.ofList formula) = (Answer.ofExpr base e).mapError .eval := by
  simp only [Answer.compute, String.toList_ofList, parsed]

theorem answer_of_eval {e : Expr} {v : Value} {n : Int64} (evaluates : e.eval = .ok v)
    (finite : v.isFinite = true) (whole : v.toWhole? = some n) : e.answer = .ok (.integer n) := by
  simp [Expr.answer, evaluates, Value.checked, finite, Value.normalized, whole, Bind.bind, Except.bind,
    Pure.pure, Except.pure]

theorem compute_negation {base : NumeralBase} {last v : Value} {formula : List Char} {n : Int64}
    (parsed : Expr.ofFormula base last formula = .ok (.negation (.number v 1) 0))
    (finite : v.negate.isFinite = true) (whole : v.negate.toWhole? = some n) :
    Answer.compute base last (String.ofList formula) = .ok (Answer.ofValue base (.integer n)) := by
  have answer : (Expr.negation (.number v 1) 0).answer = .ok (.integer n) := answer_of_eval rfl finite whole
  rw [compute_of_ofFormula parsed]
  simp only [Answer.ofExpr, answer]
  rfl

theorem compute_digits {base : NumeralBase} {last : Value} {n : Int64} (sign : 0 ≤ n.toInt) :
    Answer.compute base last (String.ofList (base.showInt n.toInt)) =
      .ok (Answer.ofValue base (.integer n)) := by
  have magnitude : (n.toInt.natAbs : Int) = n.toInt := Int.natAbs_of_nonneg sign
  have parsed := ofFormula_digits base last (Whole.natAbs_le_greatest sign)
  rw [magnitude, Int64.ofInt_toInt] at parsed
  have answer : (Expr.number (.integer n) 0).answer = .ok (.integer n) := answer_of_eval rfl rfl rfl
  rw [NumeralBase.showInt_of_nonneg sign, compute_of_ofFormula parsed]
  simp only [Answer.ofExpr, answer]
  rfl

theorem compute_minus_digits {base : NumeralBase} {last : Value} {n : Int64} (sign : n.toInt < 0)
    (inRange : n ≠ Int64.minValue) :
    Answer.compute base last (String.ofList (base.showInt n.toInt)) =
      .ok (Answer.ofValue base (.integer n)) := by
  have magnitude : (n.toInt.natAbs : Int) = -n.toInt := Int.ofNat_natAbs_of_nonpos (Int.le_of_lt sign)
  have small : (n.toInt.natAbs : Int) ≤ Whole.greatest := by
    have lower := Int64.le_toInt n
    have other : n.toInt ≠ -9223372036854775808 := fun same => inRange (Int64.toInt_inj.mp same)
    unfold Whole.greatest
    omega
  have known : Whole.ofInt? n.toInt.natAbs = some (Int64.ofInt n.toInt.natAbs) :=
    if_pos ⟨by unfold Whole.least; omega, small⟩
  have negated : (Value.integer (Int64.ofInt n.toInt.natAbs)).negate = .integer n := by
    have opposite : Whole.neg? (Int64.ofInt n.toInt.natAbs) = some n := by
      rw [Whole.neg?, Whole.toInt_of_ofInt? known, magnitude, Int.neg_neg, Whole.ofInt?_toInt]
    simp only [Value.negate, opposite]
  have parsed := ofFormula_minus_digits base last (.inr small)
    (Token.scans_whole 1 small (Text.leaves_nil _)) .integer
  rw [NumeralBase.showInt_of_neg sign]
  exact compute_negation parsed (by rw [negated]; rfl) (by rw [negated]; rfl)

/-- The magnitude of the least whole number is past 64 bits, so its numeral is read as a real. -/
theorem compute_least {last : Value} :
    Answer.compute .decimal last (String.ofList (NumeralBase.decimal.showInt Int64.minValue.toInt)) =
      .ok (Answer.ofValue .decimal (.integer Int64.minValue)) := by
  let magnitude : Float := Binary64.ofDecimal 9223372036854775808 0
  have symbol : Token.Pattern.whole.symbol (NumeralBase.decimal.digits 9223372036854775808) =
      .ok (some (.real magnitude)) := by
    have notWhole : Decimal.readWhole? (NumeralBase.decimal.digits 9223372036854775808) = none :=
      Decimal.readWhole?_digits 9223372036854775808
    have real : Decimal.readReal? (NumeralBase.decimal.digits 9223372036854775808) = some magnitude := by
      decide +kernel
    have finite : magnitude.isFinite = true := by decide +kernel
    simp only [Token.Pattern.symbol, notWhole, Token.finiteReal, real, finite, if_true]
  have scans : Scans 1 (NumeralBase.decimal.digits 9223372036854775808) [] [⟨.real magnitude, 1⟩] :=
    Token.scans_lexeme (some (.real magnitude))
      (Token.longest?_digits (NumeralBase.digits_ne_nil _ _) (fun _ => NumeralBase.isDigit_of_mem_digits)
        (Text.leaves_nil _)) symbol
  have parsed := ofFormula_minus_digits .decimal last (.inl rfl) scans .real
  have least : Int64.minValue.toInt = -9223372036854775808 := by decide
  rw [least, NumeralBase.showInt_of_neg (by decide)]
  exact compute_negation parsed (by decide +kernel) (by decide +kernel)

/-- Every whole number is a formula in its own notation, and the answer to it. -/
theorem compute_showInt (base : NumeralBase) (last : Value) (n : Int64)
    (inRange : n ≠ Int64.minValue ∨ base = .decimal) :
    Answer.compute base last (String.ofList (base.showInt n.toInt)) =
      .ok ⟨String.ofList (base.showInt n.toInt), .integer n⟩ := by
  by_cases sign : 0 ≤ n.toInt
  · exact compute_digits sign
  · by_cases least : n = Int64.minValue
    · obtain rfl := inRange.resolve_left fun other => other least
      subst least
      exact compute_least
    · exact compute_minus_digits (Int.not_le.mp sign) least

/-- The least whole number in decimal, and the one after it in octal. -/
theorem compute_showInt_least :
    (Int64.minValue ≠ Int64.minValue ∨ NumeralBase.decimal = .decimal) ∧
      Answer.compute .decimal (.integer 7) "-9223372036854775808" =
        .ok ⟨"-9223372036854775808", .integer Int64.minValue⟩ ∧
      Answer.compute .octal (.integer 7) "-777777777777777777777" =
        .ok ⟨"-777777777777777777777", .integer (Int64.minValue + 1)⟩ :=
  ⟨.inr rfl, compute_showInt .decimal (.integer 7) Int64.minValue (.inr rfl),
    compute_showInt .octal (.integer 7) (Int64.minValue + 1) (.inl (by decide))⟩

end Calculator
