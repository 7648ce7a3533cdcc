import Calculator.Proofs.Formula.Words

namespace Calculator.Formula

open Text (Leaves isWord)

inductive Word where
  | numeral (n : Int)
  | verbatim (text : List Char)

def Word.write (base : NumeralBase) : Word → List Char
  | .numeral n => base.showInt n
  | .verbatim text => text

/-- A numeral of 64 bits without a sign, or word characters not all of which are digits of the base. -/
def Word.Fits (base : NumeralBase) : Word → Prop
  | .numeral n => 0 ≤ n ∧ n ≤ Whole.greatest
  | .verbatim text => (∀ c ∈ text, isWord c = true) ∧ text.all base.isDigit = false

instance (base : NumeralBase) : (word : Word) → Decidable (word.Fits base)
  | .numeral n => inferInstanceAs (Decidable (0 ≤ n ∧ n ≤ Whole.greatest))
  | .verbatim text =>
    have := List.decidableBAll (fun c => isWord c = true) text
    inferInstanceAs (Decidable ((∀ c ∈ text, isWord c = true) ∧ text.all base.isDigit = false))

def IsSeparator (text : List Char) : Prop := ∀ c ∈ text, isWord c = false ∧ c ≠ separatorMark

instance (text : List Char) : Decidable (IsSeparator text) :=
  List.decidableBAll (fun c => isWord c = false ∧ c ≠ separatorMark) text

def writeWords (base : NumeralBase) (words : List (Word × List Char)) : List Char :=
  words.flatMap fun (word, separator) => word.write base ++ separator

/-- A separator, and then words, each with the separator after it. -/
structure Layout where
  leading : List Char
  words : List (Word × List Char)

def Layout.write (base : NumeralBase) (layout : Layout) : List Char :=
  layout.leading ++ writeWords base layout.words

structure Layout.WellFormed (base : NumeralBase) (layout : Layout) : Prop where
  leading : IsSeparator layout.leading
  fits : ∀ piece ∈ layout.words, piece.1.Fits base
  separators : ∀ piece ∈ layout.words, IsSeparator piece.2
  apart : ∀ piece ∈ layout.words.dropLast, piece.2 ≠ []

theorem IsSeparator.separates {text : List Char} (h : IsSeparator text) : Separates text :=
  fun c member => (h c member).1

theorem Word.Fits.isWord {base written : NumeralBase} {word : Word} (fits : word.Fits base) :
    ∀ c ∈ word.write written, Text.isWord c = true := by
  cases word with
  | numeral n =>
    intro c member
    rw [write, NumeralBase.showInt_of_nonneg fits.1] at member
    exact isWord_of_mem_digits member
  | verbatim text => exact fits.1

theorem Word.Fits.nonempty {base : NumeralBase} {word : Word} (fits : word.Fits base) :
    word.write base ≠ [] := by
  cases word with
  | numeral n =>
    rw [write, NumeralBase.showInt_of_nonneg fits.1]
    exact base.digits_ne_nil _
  | verbatim text =>
    intro empty
    have other := fits.2
    rw [show text = [] from empty] at other
    cases other

theorem Word.Fits.literalInDecimal {base : NumeralBase} {word : Word} (fits : word.Fits base) :
    Formula.literalInDecimal base (word.write base) = word.write .decimal := by
  cases word with
  | numeral n =>
    obtain ⟨sign, bound⟩ := fits
    have inRange : (n.natAbs : Int) ≤ Whole.greatest := by
      rw [Int.natAbs_of_nonneg sign]
      exact bound
    simp only [write, NumeralBase.showInt_of_nonneg sign]
    exact literalInDecimal_digits inRange
  | verbatim text => exact literalInDecimal_other fits.2

theorem mapWords_writeWords {base : NumeralBase} {words : List (Word × List Char)} {tail : List Char}
    (fits : ∀ piece ∈ words, piece.1.Fits base) (separators : ∀ piece ∈ words, IsSeparator piece.2)
    (apart : ∀ piece ∈ words.dropLast, piece.2 ≠ []) (ends : Separates tail) :
    mapWords (literalInDecimal base) (writeWords base words ++ tail) = writeWords .decimal words ++ tail := by
  induction words with
  | nil => exact mapWords_separates ends
  | cons piece words ih =>
    obtain ⟨word, separator⟩ := piece
    have wordFits : word.Fits base := fits (word, separator) (by simp)
    have separates : Separates separator := (separators (word, separator) (by simp)).separates
    have following := ih (fun piece member => fits piece (by simp [member]))
      (fun piece member => separators piece (by simp [member]))
      (fun piece member => apart piece (by
        cases words with
        | nil => cases member
        | cons second words => simpa using .inr member))
    -- Behind a word without a separator there is only the tail.
    have leaves : Leaves isWord (separator ++ (writeWords base words ++ tail)) := by
      cases separator with
      | nil =>
        cases words with
        | nil => exact ends.leaves
        | cons second words => exact absurd rfl (apart (word, []) (by simp))
      | cons c separator => exact Text.leaves_cons.mpr (separates c (by simp))
    simp only [writeWords, List.flatMap_cons, List.append_assoc] at following leaves ⊢
    rw [mapWords_word _ wordFits.nonempty wordFits.isWord leaves, wordFits.literalInDecimal,
      mapWords_separator _ _ separates, following]

theorem literalsInDecimal_write {base : NumeralBase} {layout : Layout} {tail : List Char}
    (wellFormed : layout.WellFormed base) (ends : Separates tail) :
    literalsInDecimal base (layout.write base ++ tail) = layout.write .decimal ++ tail := by
  by_cases decimal : base = .decimal
  · subst decimal
    exact if_pos rfl
  · have words := mapWords_writeWords wellFormed.fits wellFormed.separators wellFormed.apart ends
    rw [literalsInDecimal, if_neg decimal, Layout.write, List.append_assoc,
      mapWords_separator _ _ wellFormed.leading.separates, words, Layout.write, List.append_assoc]

theorem separatorMark_not_mem_write {base : NumeralBase} {layout : Layout} (written : NumeralBase)
    (wellFormed : layout.WellFormed base) : separatorMark ∉ layout.write written := by
  intro member
  rcases List.mem_append.mp member with member | member
  · exact (wellFormed.leading _ member).2 rfl
  · obtain ⟨piece, inWords, member⟩ := List.mem_flatMap.mp member
    rcases List.mem_append.mp member with member | member
    · have word := (wellFormed.fits piece inWords).isWord _ member
      rw [isWord_separatorMark] at word
      cases word
    · exact (wellFormed.separators piece inWords _ member).2 rfl

theorem prepare_write {base : NumeralBase} {layout : Layout} (tail : List Char)
    (wellFormed : layout.WellFormed base) (ends : IsSeparator tail) :
    prepare base (layout.write base ++ tail) = prepare .decimal (layout.write .decimal ++ tail) := by
  have unmarked {written : NumeralBase} : separatorMark ∉ layout.write written ++ tail := by
    intro member
    rcases List.mem_append.mp member with member | member
    · exact separatorMark_not_mem_write written wellFormed member
    · exact (ends _ member).2 rfl
  rw [prepare_of_unmarked _ unmarked, prepare_of_unmarked _ unmarked,
    literalsInDecimal_write wellFormed ends.separates]
  rfl

theorem openAfter_writeWords {base written : NumeralBase} {words : List (Word × List Char)} {k : Nat}
    (fits : ∀ piece ∈ words, piece.1.Fits base) :
    (writeWords written words).foldl openAfter k =
      (words.flatMap fun piece => piece.2).foldl openAfter k := by
  induction words generalizing k with
  | nil => rfl
  | cons piece words ih =>
    have plain : ∀ c ∈ piece.1.write written, c ≠ '(' ∧ c ≠ ')' := by
      intro c member
      have word := (fits piece (by simp)).isWord c member
      constructor <;> intro parenthesis <;> subst c <;> exact absurd word (by decide)
    simp only [writeWords, List.flatMap_cons, List.foldl_append] at ih ⊢
    rw [unclosed_append_plain plain, ih fun piece member => fits piece (by simp [member])]

theorem unclosed_write {base : NumeralBase} {layout : Layout} (wellFormed : layout.WellFormed base) :
    unclosed (layout.write base) = unclosed (layout.write .decimal) := by
  simp only [unclosed, Layout.write, List.foldl_append]
  rw [openAfter_writeWords wellFormed.fits, openAfter_writeWords wellFormed.fits]

theorem prepare_closeParentheses_write {base : NumeralBase} {layout : Layout}
    (wellFormed : layout.WellFormed base) :
    prepare base (closeParentheses (layout.write base)) =
      prepare .decimal (closeParentheses (layout.write .decimal)) := by
  have closing : IsSeparator (List.replicate (unclosed (layout.write .decimal)) ')') := by
    intro c member
    rw [List.eq_of_mem_replicate member]
    decide
  rw [closeParentheses, closeParentheses, unclosed_write wellFormed]
  exact prepare_write _ wellFormed closing

end Calculator.Formula
