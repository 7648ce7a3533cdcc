import Calculator.Proofs.Formula.Words
import Calculator.Proofs.Token.Scanning

namespace Calculator.Formula

open Text (isWord)

def isParenthesis (c : Char) : Bool := c == '(' || c == ')'

def parentheses (text : List Char) : List Char := text.filter isParenthesis

theorem parentheses_append (text more : List Char) :
    parentheses (text ++ more) = parentheses text ++ parentheses more := List.filter_append text more

theorem parentheses_of_apart {p : Char → Bool} {text : List Char} (inside : ∀ c ∈ text, p c = true)
    (apart : p '(' = false ∧ p ')' = false) : parentheses text = [] := by
  refine List.filter_eq_nil_iff.mpr fun c member parenthesis => ?_
  have isInside := inside c member
  rcases Bool.or_eq_true_iff.mp parenthesis with same | same
  · rw [eq_of_beq same, apart.1] at isInside
    cases isInside
  · rw [eq_of_beq same, apart.2] at isInside
    cases isInside

theorem parentheses_cons_congr {c d : Char} {text text' : List Char}
    (same : c = d ∨ isParenthesis c = false ∧ isParenthesis d = false)
    (others : parentheses text = parentheses text') : parentheses (c :: text) = parentheses (d :: text') := by
  change List.filter isParenthesis text = List.filter isParenthesis text' at others
  unfold parentheses
  rcases same with rfl | ⟨left, right⟩
  · rw [List.filter_cons, List.filter_cons, others]
  · rw [List.filter_cons_of_neg (by simp [left]), List.filter_cons_of_neg (by simp [right]), others]

section Closing

theorem foldl_openAfter_parentheses (text : List Char) (unclosed : Nat) :
    (parentheses text).foldl openAfter unclosed = text.foldl openAfter unclosed := by
  induction text generalizing unclosed with
  | nil => rfl
  | cons c text ih =>
    unfold parentheses
    cases parenthesis : isParenthesis c with
    | true =>
      rw [List.filter_cons_of_pos parenthesis]
      exact ih _
    | false =>
      have other : c ≠ '(' ∧ c ≠ ')' := by simpa [isParenthesis] using parenthesis
      rw [List.filter_cons_of_neg (by simp [parenthesis]), List.foldl_cons, openAfter, if_neg other.1,
        if_neg other.2]
      exact ih _

theorem foldl_openAfter_replicate (count open' : Nat) :
    (List.replicate count ')').foldl openAfter open' = open' - count := by
  induction count generalizing open' with
  | zero => rfl
  | succ count ih =>
    have closes : openAfter open' ')' = open' - 1 := rfl
    rw [List.replicate_succ, List.foldl_cons, closes, ih]
    omega

theorem unclosed_closeParentheses (formula : List Char) : unclosed (closeParentheses formula) = 0 := by
  unfold closeParentheses unclosed
  rw [List.foldl_append, foldl_openAfter_replicate]
  exact Nat.sub_self _

end Closing

section Preparing

theorem parentheses_mapWords {convert : List Char → List Char}
    (inside : ∀ word, (∀ c ∈ word, isWord c = true) → ∀ c ∈ convert word, isWord c = true)
    (text : List Char) : parentheses (mapWords convert text) = parentheses text := by
  have apart : isWord '(' = false ∧ isWord ')' = false := by decide
  fun_induction mapWords convert text with
  | case1 => rfl
  | case2 c rest begins ih =>
    have word : ∀ d ∈ c :: rest.takeWhile isWord, isWord d = true := Text.forall_mem_firstRun begins
    have split : (c :: rest.takeWhile isWord) ++ rest.dropWhile isWord = c :: rest := Text.firstRun_append
    rw [← split, parentheses_append, parentheses_append, parentheses_of_apart word apart,
      parentheses_of_apart (inside _ word) apart, ih]
  | case3 c rest begins ih => exact parentheses_cons_congr (.inl rfl) ih

theorem isWord_of_mem_literalInDecimal {base : NumeralBase} {word : List Char}
    (inside : ∀ c ∈ word, isWord c = true) : ∀ c ∈ literalInDecimal base word, isWord c = true := by
  intro c member
  unfold literalInDecimal at member
  split at member
  · split at member
    · exact isWord_of_mem_digits member
    · exact inside c member
  · exact inside c member

theorem parentheses_literalsInDecimal (base : NumeralBase) (formula : List Char) :
    parentheses (literalsInDecimal base formula) = parentheses formula := by
  unfold literalsInDecimal
  split
  · rfl
  · exact parentheses_mapWords (fun _ => isWord_of_mem_literalInDecimal) formula

theorem isParenthesis_separatorMark : isParenthesis separatorMark = false := by decide

theorem parentheses_markFrom (before : Option Char) (text : List Char) :
    parentheses (markFrom before text) = parentheses text := by
  fun_induction markFrom before text with
  | case1 => rfl
  | case2 before c rest offset comma found ih =>
    have separates : (c :: rest)[comma]? = some ',' := by
      by_cases inWord : before.any isWord = true
      · simp [offset, inWord] at found
      · exact getElem?_of_separatorOffset? (by simpa [offset, inWord] using found)
    obtain ⟨bound, isComma⟩ := List.getElem?_eq_some_iff.mp separates
    have split : c :: rest = (c :: rest).take comma ++ ',' :: rest.drop comma := by
      conv_lhs => rw [← List.take_append_drop comma (c :: rest), List.drop_eq_getElem_cons bound, isComma,
        List.drop_succ_cons]
    conv_rhs => rw [split]
    rw [parentheses_append, parentheses_append]
    refine congrArg (parentheses ((c :: rest).take comma) ++ ·) ?_
    exact parentheses_cons_congr (.inr ⟨isParenthesis_separatorMark, by decide⟩) ih
  | case3 before c rest offset found ih => exact parentheses_cons_congr (.inl rfl) ih

theorem parentheses_pointFrom (before : Option Char) (text : List Char) :
    parentheses (pointFrom before text) = parentheses text := by
  induction text generalizing before with
  | nil => rfl
  | cons c rest ih =>
    rw [pointFrom]
    refine parentheses_cons_congr ?_ (ih (some c))
    split
    · rename_i point
      rw [point.1]
      exact .inr (by decide)
    · exact .inl rfl

theorem parentheses_map_unmark (text : List Char) : parentheses (text.map unmark) = parentheses text := by
  induction text with
  | nil => rfl
  | cons c rest ih =>
    refine parentheses_cons_congr ?_ ih
    unfold unmark
    split
    · rename_i mark
      rw [mark]
      exact .inr ⟨by decide, isParenthesis_separatorMark⟩
    · exact .inl rfl

theorem parentheses_prepare {base : NumeralBase} {formula prepared : List Char}
    (prepares : prepare base formula = .ok prepared) : parentheses prepared = parentheses formula := by
  unfold prepare at prepares
  split at prepares
  · cases prepares
  · cases prepares
    rw [decimalCommasToPoints, parentheses_map_unmark, markSeparators, parentheses_pointFrom,
      parentheses_markFrom, parentheses_literalsInDecimal]

end Preparing

section Scanning

open Token (Lexeme tokensOf textOf scan)

def parenthesisOf? (t : Token) : Option Char :=
  match t.symbol with
  | .openParen => some '('
  | .closeParen => some ')'
  | _ => none

theorem parentheses_lexeme {l : Lexeme} (formed : l.WellFormed) (position : Nat) :
    (l.symbol?.toList.map (⟨·, position⟩)).filterMap parenthesisOf? = parentheses l.text := by
  cases l with
  | spacing text => exact (parentheses_of_apart formed.2 (by decide)).symm
  | whole digits =>
    have plain : parentheses digits = [] := parentheses_of_apart formed.2 (by decide)
    unfold Lexeme.symbol? Lexeme.text
    dsimp only
    rw [plain]
    split <;> rfl
  | decimal digits places => exact (parentheses_of_apart formed.continuesLiteral (by decide)).symm
  | name text => exact (parentheses_of_apart (Token.standsInName_of_isName formed) (by decide)).symm
  | mark s =>
    simp only [Lexeme.WellFormed, Token.marks, List.mem_cons, List.not_mem_nil, or_false] at formed
    rcases formed with rfl | rfl | rfl | rfl | rfl | rfl | rfl | rfl | rfl <;> rfl

theorem parentheses_tokensOf {lexemes : List Lexeme} (formed : ∀ l ∈ lexemes, l.WellFormed)
    (position : Nat) : (tokensOf position lexemes).filterMap parenthesisOf? = parentheses (textOf lexemes) := by
  induction lexemes generalizing position with
  | nil => rfl
  | cons l lexemes ih =>
    obtain ⟨first, others⟩ := List.forall_mem_cons.mp formed
    have text : textOf (l :: lexemes) = l.text ++ textOf lexemes := rfl
    rw [tokensOf, List.filterMap_append, parentheses_lexeme first, ih others, text, parentheses_append]

theorem exists_body_of_scan {source : List Char} {tokens : List Token} (scans : scan source = .ok tokens) :
    ∃ body last, tokens = body ++ [last] ∧ last.symbol = .done ∧ (∀ t ∈ body, t.symbol ≠ .done) ∧
      body.filterMap parenthesisOf? = parentheses source := by
  obtain ⟨lexemes, cut, finite, split, rfl⟩ := Token.exists_cut_of_scan scans
  refine ⟨_, _, rfl, rfl, Token.ne_done_of_mem_tokensOf cut.wellFormed, ?_⟩
  rw [parentheses_tokensOf cut.wellFormed, ← split]

end Scanning

end Calculator.Formula
