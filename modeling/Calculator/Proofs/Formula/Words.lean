import Calculator.Formula.Parentheses
import Calculator.Formula.Prepare
import Calculator.Proofs.Numeral
import Calculator.Proofs.Text.Runs

namespace Calculator.Formula

open Text (Leaves leaves_cons takeWhile_run dropWhile_run isWord)

theorem isWord_separatorMark : isWord separatorMark = false := by decide +kernel

def Separates (text : List Char) : Prop := ∀ c ∈ text, isWord c = false

theorem Separates.leaves {text : List Char} (h : Separates text) : Leaves isWord text := by
  intro c first
  exact h c (List.mem_of_mem_head? first)

theorem mapWords_separator (convert : List Char → List Char) {separator : List Char} (rest : List Char)
    (separates : Separates separator) :
    mapWords convert (separator ++ rest) = separator ++ mapWords convert rest := by
  induction separator with
  | nil => rfl
  | cons c separator ih =>
    have plain : isWord c = false := separates c (by simp)
    rw [List.cons_append, mapWords, ih fun c member => separates c (by simp [member])]
    simp [plain]

theorem mapWords_word (convert : List Char → List Char) {word rest : List Char} (nonempty : word ≠ [])
    (inside : ∀ c ∈ word, isWord c = true) (leaves : Leaves isWord rest) :
    mapWords convert (word ++ rest) = convert word ++ mapWords convert rest := by
  obtain ⟨c, word, rfl⟩ := List.exists_cons_of_ne_nil nonempty
  have tailInside : ∀ c ∈ word, isWord c = true := fun c member => inside c (by simp [member])
  rw [List.cons_append, mapWords, if_pos (inside c (by simp)), takeWhile_run tailInside leaves,
    dropWhile_run tailInside leaves]

theorem mapWords_separates {convert : List Char → List Char} {text : List Char}
    (separates : Separates text) : mapWords convert text = text := by
  have mapped := mapWords_separator convert [] separates
  rw [mapWords, List.append_nil] at mapped
  exact mapped

theorem literalInDecimal_digits {base : NumeralBase} {n : Nat} (inRange : (n : Int) ≤ Whole.greatest) :
    literalInDecimal base (base.digits n) = NumeralBase.decimal.digits n := by
  simp [literalInDecimal, NumeralBase.readNat?_digits, inRange]

theorem literalInDecimal_other {base : NumeralBase} {word : List Char}
    (other : word.all base.isDigit = false) : literalInDecimal base word = word := by
  have unread : base.readNat? word = none := by simp [NumeralBase.readNat?, other]
  simp [literalInDecimal, unread]

theorem isWord_of_mem_digits {base : NumeralBase} {n : Nat} {c : Char} (member : c ∈ base.digits n) :
    isWord c = true :=
  Text.isWord_of_isDigit (NumeralBase.isDigit_of_mem_digits member)

theorem unclosed_append_plain {k : Nat} {text : List Char} (plain : ∀ c ∈ text, c ≠ '(' ∧ c ≠ ')') :
    text.foldl openAfter k = k := by
  induction text generalizing k with
  | nil => rfl
  | cons c text ih =>
    obtain ⟨notOpen, notClose⟩ := plain c (by simp)
    rw [List.foldl_cons, openAfter, if_neg notOpen, if_neg notClose]
    exact ih fun c member => plain c (by simp [member])

theorem mem_of_separatorOffset? {text : List Char} {comma : Nat} (h : separatorOffset? text = some comma) :
    '(' ∈ text ∧ text[comma]? = some ',' := by
  simp only [separatorOffset?, Option.bind_eq_bind, Option.bind_eq_some_iff] at h
  obtain ⟨name, _, h⟩ := h
  split at h
  · rename_i call
    cases h
    exact ⟨List.mem_of_getElem? call.1, call.2.2.1⟩
  · cases h

theorem getElem?_of_separatorOffset? {text : List Char} {comma : Nat}
    (h : separatorOffset? text = some comma) : text[comma]? = some ',' := (mem_of_separatorOffset? h).2

theorem markFrom_of_no_call {before : Option Char} {text : List Char}
    (noCall : ∀ rest, rest <:+ text → separatorOffset? rest = none) : markFrom before text = text := by
  induction text generalizing before with
  | nil => rw [markFrom]
  | cons c rest ih =>
    rw [markFrom]
    simp only [noCall _ (List.suffix_refl _), ite_self]
    rw [ih fun tail isSuffix => noCall tail (isSuffix.trans (List.suffix_cons c rest))]

theorem markFrom_of_no_comma {before : Option Char} {text : List Char} (noComma : ',' ∉ text) :
    markFrom before text = text := by
  refine markFrom_of_no_call fun rest isSuffix => ?_
  cases found : separatorOffset? rest with
  | none => rfl
  | some comma =>
    have inside := List.mem_of_getElem? (getElem?_of_separatorOffset? found)
    exact absurd (isSuffix.subset inside) noComma

theorem markFrom_of_no_openParen {before : Option Char} {text : List Char} (noParen : '(' ∉ text) :
    markFrom before text = text := by
  refine markFrom_of_no_call fun rest isSuffix => ?_
  cases found : separatorOffset? rest with
  | none => rfl
  | some comma => exact absurd (isSuffix.subset (mem_of_separatorOffset? found).1) noParen

theorem pointFrom_of_no_comma {before : Option Char} {text : List Char} (noComma : ',' ∉ text) :
    pointFrom before text = text := by
  induction text generalizing before with
  | nil => rfl
  | cons c rest ih =>
    have other : c ≠ ',' := fun same => noComma (by simp [same])
    rw [pointFrom, ih fun member => noComma (by simp [member])]
    simp [other]

theorem map_unmark {text : List Char} (unmarked : separatorMark ∉ text) : text.map unmark = text := by
  have same : ∀ c ∈ text, unmark c = c := by
    intro c member
    have other : c ≠ separatorMark := fun mark => unmarked (mark ▸ member)
    simp [unmark, other]
  exact (List.map_congr_left same).trans (List.map_id text)

theorem decimalCommasToPoints_of_no_comma {text : List Char} (noComma : ',' ∉ text)
    (unmarked : separatorMark ∉ text) : decimalCommasToPoints text = text := by
  rw [decimalCommasToPoints, markSeparators, markFrom_of_no_comma noComma, pointFrom_of_no_comma noComma,
    map_unmark unmarked]

theorem prepare_of_unmarked (base : NumeralBase) {formula : List Char}
    (unmarked : separatorMark ∉ formula) :
    prepare base formula = .ok (decimalCommasToPoints (literalsInDecimal base formula)) := by
  have absent : formula.findIdx? (· = separatorMark) = none := by
    rw [List.findIdx?_eq_none_iff]
    intro c member
    have other : c ≠ separatorMark := fun mark => unmarked (mark ▸ member)
    simp [other]
  rw [prepare, absent]

end Calculator.Formula
