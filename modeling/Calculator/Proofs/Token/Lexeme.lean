import Calculator.Proofs.Numeral
import Calculator.Proofs.Text.Runs
import Calculator.Proofs.Token.Offsets

namespace Calculator.Token

open Text (Leaves leaves_cons takeWhile_of_leaves takeWhile_run dropWhile_run)

/-- A text gives tokens, and scanning goes on behind it. -/
def Scans (position : Nat) (text rest : List Char) (tokens : List Token) : Prop :=
  scanFrom List.length position (text ++ rest) =
    (scanFrom List.length (position + text.length) rest).map (tokens ++ ·)

theorem scans_lexeme {position : Nat} {text rest : List Char} {pattern : Pattern} (symbol? : Option Symbol)
    (found : longest? (text ++ rest) = some (pattern, text.length))
    (symbol : pattern.symbol text = .ok symbol?) :
    Scans position text rest (symbol?.toList.map fun s => ⟨s, position⟩) := by
  rw [Scans, scanFrom_legible found (by rw [List.take_left, symbol]), List.take_left, List.drop_left]

theorem Scans.append {position : Nat} {text text' rest : List Char} {tokens tokens' : List Token}
    (first : Scans position text (text' ++ rest) tokens)
    (second : Scans (position + text.length) text' rest tokens') :
    Scans position (text ++ text') rest (tokens ++ tokens') := by
  unfold Scans at *
  rw [List.append_assoc, first, second, List.length_append, ← Nat.add_assoc]
  cases scanFrom List.length (position + text.length + text'.length) rest with
  | error e => rfl
  | ok following => simp [Except.map]

theorem scan_of_scans {text : List Char} {tokens : List Token} (scans : Scans 0 text [] tokens) :
    scan text = .ok (tokens ++ [⟨.done, text.length⟩]) := by
  unfold Scans at scans
  rw [List.append_nil, scanFrom_end] at scans
  rw [scan_eq, scans]
  simp [Except.map]

theorem scans_blank {position : Nat} {rest : List Char} (leaves : Leaves isSpacing rest) :
    Scans position [' '] rest [] := by
  have found : longest? ([' '] ++ rest) = some (.spacing, 1) := by
    simp [longest?, show isSpacing ' ' = true from rfl, takeWhile_of_leaves leaves]
  exact scans_lexeme none found rfl

theorem mark?_plain {c : Char} {s : Symbol} (mark : mark? c = some s) :
    isSpacing c = false ∧ c.isDigit = false ∧ c ≠ '√' ∧ c ≠ 'n' ∧ c ≠ 'ⁿ' ∧ beginsName c = false := by
  unfold mark? at mark
  split at mark
  case h_9 => cases mark
  all_goals decide

theorem scans_mark {position : Nat} {c : Char} {rest : List Char} {s : Symbol} (mark : mark? c = some s)
    (single : c = '*' → Leaves (· == '*') rest) : Scans position [c] rest [⟨s, position⟩] := by
  obtain ⟨spacing, digit, root, n, power, name⟩ := mark?_plain mark
  have star : ¬ (c = '*' ∧ rest.head? = some '*') := by
    intro double
    have again : '*' ∈ rest.head? := double.2
    exact absurd (single double.1 '*' again) (by decide)
  have found : longest? ([c] ++ rest) = some (.mark s, 1) := by
    simp [longest?, spacing, digit, root, n, power, name, star, mark]
  exact scans_lexeme (some s) found rfl

theorem not_isSpacing {p : Char → Bool} {c : Char} (inside : p c = true)
    (apart : [' ', '\t', '\x0c', '\r', '\n'].all (fun blank => !p blank) = true) : isSpacing c = false := by
  cases spacing : isSpacing c with
  | false => rfl
  | true =>
    simp only [isSpacing, Bool.or_eq_true, beq_iff_eq] at spacing
    have blank : c ∈ [' ', '\t', '\x0c', '\r', '\n'] := by
      rcases spacing with (((rfl | rfl) | rfl) | rfl) | rfl <;> decide
    have outside := List.all_eq_true.mp apart c blank
    rw [inside] at outside
    cases outside

def continuesLiteral (c : Char) : Bool := c.isDigit || c == '.'

theorem longest?_digits {text rest : List Char} (nonempty : text ≠ [])
    (inside : ∀ c ∈ text, c.isDigit = true) (leaves : Leaves continuesLiteral rest) :
    longest? (text ++ rest) = some (.whole, text.length) := by
  obtain ⟨c, digits, rfl⟩ := List.exists_cons_of_ne_nil nonempty
  have digit : c.isDigit = true := inside c (by simp)
  have spacing : isSpacing c = false := not_isSpacing digit (by decide)
  have noDigit : Leaves Char.isDigit rest := fun c first => (Bool.or_eq_false_iff.mp (leaves c first)).1
  have digitsInside : ∀ c ∈ digits, c.isDigit = true := fun c member => inside c (by simp [member])
  simp only [List.cons_append, longest?, spacing, digit, takeWhile_run digitsInside noDigit,
    dropWhile_run digitsInside noDigit, List.length_cons]
  cases rest with
  | nil => rfl
  | cons next rest =>
    have point : next ≠ '.' := by
      have other := (Bool.or_eq_false_iff.mp (leaves_cons.mp leaves)).2
      simpa using other
    simp [point]

theorem scans_whole (position : Nat) {n : Nat} {rest : List Char} (inRange : (n : Int) ≤ Whole.greatest)
    (leaves : Leaves continuesLiteral rest) :
    Scans position (NumeralBase.decimal.digits n) rest [⟨.integer (Int64.ofInt n), position⟩] := by
  have known : Whole.ofInt? n = some (Int64.ofInt n) :=
    if_pos ⟨by unfold Whole.least; omega, inRange⟩
  have symbol : Pattern.whole.symbol (NumeralBase.decimal.digits n) =
      .ok (some (.integer (Int64.ofInt n))) := by
    simp [Pattern.symbol, Decimal.readWhole?_digits, known]
  have found := longest?_digits (NumeralBase.digits_ne_nil .decimal n)
    (fun _ => NumeralBase.isDigit_of_mem_digits) leaves
  exact scans_lexeme _ found symbol

theorem not_isDigit_of_isAlpha {c : Char} (h : c.isAlpha = true) : c.isDigit = false := by
  delta Char.isAlpha Char.isUpper Char.isLower at h
  delta Char.isDigit
  simp only [Bool.or_eq_true, Bool.and_eq_true, decide_eq_true_eq] at h
  have order := @UInt32.le_iff_toNat_le
  grind

theorem beginsName_plain {c : Char} (begins : beginsName c = true) :
    isSpacing c = false ∧ c.isDigit = false ∧ c ≠ '√' := by
  refine ⟨not_isSpacing begins (by decide), ?_, ?_⟩
  · simp only [beginsName, Bool.or_eq_true, beq_iff_eq] at begins
    rcases begins with (alpha | rfl) | rfl
    · exact not_isDigit_of_isAlpha alpha
    · decide
    · decide
  · intro root
    subst c
    exact absurd begins (by decide)

/-- The texts of names: a root sign, or a letter and then letters and digits. -/
def isName : List Char → Bool
  | ['√'] | ['n', '√'] | ['ⁿ', '√'] => true
  | c :: tail => beginsName c && tail.all continuesName
  | [] => false

def standsInName (c : Char) : Bool := continuesName c || c == '√' || c == 'ⁿ'

theorem standsInName_of_isName {text : List Char} (name : isName text = true) :
    ∀ c ∈ text, standsInName c = true := by
  unfold isName at name
  split at name
  · exact List.all_eq_true.mp (by decide)
  · exact List.all_eq_true.mp (by decide)
  · exact List.all_eq_true.mp (by decide)
  · rename_i c tail _ _ _
    obtain ⟨begins, continued⟩ := Bool.and_eq_true_iff.mp name
    refine List.forall_mem_cons.mpr ⟨?_, fun d member => ?_⟩
    · simp [standsInName, continuesName, begins]
    · simp [standsInName, List.all_eq_true.mp continued d member]
  · cases name

def extendsName (c : Char) : Bool := continuesName c || c == '√'

theorem longest?_name {text rest : List Char} (name : isName text = true) (leaves : Leaves extendsName rest) :
    longest? (text ++ rest) = some (.name, text.length) := by
  unfold isName at name
  split at name
  · rfl
  · rfl
  · rfl
  · rename_i c tail _ _ _
    obtain ⟨begins, continued⟩ := Bool.and_eq_true_iff.mp name
    obtain ⟨spacing, digit, root⟩ := beginsName_plain begins
    have inside : ∀ d ∈ tail, continuesName d = true := List.all_eq_true.mp continued
    have ends : Leaves continuesName rest := fun d first => (Bool.or_eq_false_iff.mp (leaves d first)).1
    have noRoot : (tail ++ rest).head? ≠ some '√' := by
      intro isRoot
      cases tail with
      | nil => exact absurd (leaves '√' isRoot) (by decide)
      | cons d tail =>
        cases isRoot
        exact absurd (inside '√' (by simp)) (by decide)
    simp only [List.cons_append, longest?, spacing, digit, root, noRoot, begins, takeWhile_run inside ends,
      and_false, if_false, if_true, Bool.false_eq_true, List.length_cons]
  · cases name

theorem isName_solid {text : List Char} (name : isName text = true) :
    ∃ c tail, text = c :: tail ∧ isSpacing c = false := by
  unfold isName at name
  split at name
  · exact ⟨_, _, rfl, rfl⟩
  · exact ⟨_, _, rfl, rfl⟩
  · exact ⟨_, _, rfl, rfl⟩
  · exact ⟨_, _, rfl, (beginsName_plain (Bool.and_eq_true_iff.mp name).1).1⟩
  · cases name

theorem scans_name {position : Nat} {text rest : List Char} (name : isName text = true)
    (leaves : Leaves extendsName rest) :
    Scans position text rest [⟨.name (String.ofList text), position⟩] :=
  scans_lexeme _ (longest?_name name leaves) rfl

end Calculator.Token
