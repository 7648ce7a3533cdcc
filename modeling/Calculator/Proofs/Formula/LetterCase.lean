import Calculator.Formula.Parentheses
import Calculator.Formula.Prepare
import Calculator.Proofs.Formula.Parentheses
import Calculator.Proofs.Formula.Points
import Calculator.Proofs.Text.LetterCase

namespace Calculator.Formula

open Text (isWord small small_append takeWhile_small dropWhile_small toLower_eq_iff)

section Small

variable {base : NumeralBase} {text formula : List Char}

theorem openAfter_toLower (k : Nat) (c : Char) : openAfter k c.toLower = openAfter k c := by
  simp only [openAfter, toLower_eq_iff (show '('.isAlpha = false by decide),
    toLower_eq_iff (show ')'.isAlpha = false by decide)]

theorem unclosed_small (formula : List Char) : unclosed (small formula) = unclosed formula := by
  rw [unclosed, small, List.foldl_map]
  simp only [openAfter_toLower, unclosed]

theorem closeParentheses_small (formula : List Char) :
    closeParentheses (small formula) = small (closeParentheses formula) := by
  have closing : small (List.replicate (unclosed formula) ')') = List.replicate (unclosed formula) ')' :=
    List.map_replicate
  rw [closeParentheses, unclosed_small, closeParentheses, small_append, closing]

theorem isDigit_base_toLower (base : NumeralBase) : base.isDigit ∘ Char.toLower = base.isDigit := by
  cases base <;> exact Text.comp_toLower (by decide)

theorem small_numeral (numeral : text.all base.isDigit = true) : small text = text := by
  refine Text.small_of_all (p := base.isDigit) ?_ numeral
  cases base <;> decide

theorem readNat?_small (base : NumeralBase) (word : List Char) :
    base.readNat? (small word) = base.readNat? word := by
  by_cases numeral : word.all base.isDigit = true
  · rw [small_numeral numeral]
  · have other : ¬ (small word).all base.isDigit = true := by
      rwa [Text.all_small (isDigit_base_toLower base)]
    simp [NumeralBase.readNat?, numeral, other]

theorem literalInDecimal_small (base : NumeralBase) (word : List Char) :
    literalInDecimal base (small word) = small (literalInDecimal base word) := by
  rw [literalInDecimal, readNat?_small, literalInDecimal]
  cases base.readNat? word with
  | none => rfl
  | some n =>
    dsimp only
    split
    · exact (small_numeral (NumeralBase.all_isDigit_digits .decimal n)).symm
    · rfl

theorem isWord_toLower (c : Char) : isWord c.toLower = isWord c := congrFun Text.isWord_toLower c

theorem mapWords_small {convert : List Char → List Char}
    (converts : ∀ word, convert (small word) = small (convert word)) (text : List Char) :
    mapWords convert (small text) = small (mapWords convert text) := by
  fun_induction mapWords convert text with
  | case1 => rw [small, List.map_nil, mapWords]
  | case2 c rest word ih =>
    have head := converts (c :: rest.takeWhile isWord)
    rw [small, List.map_cons] at head
    rw [small, List.map_cons, mapWords, if_pos (by rwa [isWord_toLower]), ← small,
      takeWhile_small Text.isWord_toLower, dropWhile_small Text.isWord_toLower, ih, small_append]
    exact congrArg (· ++ _) head
  | case3 c rest other ih =>
    rw [small, List.map_cons, mapWords, if_neg (by rwa [isWord_toLower]), ← small, ih]
    rfl

theorem literalsInDecimal_small (base : NumeralBase) (formula : List Char) :
    literalsInDecimal base (small formula) = small (literalsInDecimal base formula) := by
  unfold literalsInDecimal
  split
  · rfl
  · exact mapWords_small (literalInDecimal_small base) formula

theorem nameLength?_small (text : List Char) : nameLength? (small text) = nameLength? text := by
  simp only [nameLength?, Text.take_small, Text.fold_small]

theorem argumentLength_small (text : List Char) : argumentLength (small text) = argumentLength text := by
  have inside : (fun c => !endsArgument c) ∘ Char.toLower = fun c => !endsArgument c :=
    Text.comp_toLower (by decide)
  rw [argumentLength, takeWhile_small inside, Text.length_small, argumentLength]

theorem separatorOffset?_small (text : List Char) :
    separatorOffset? (small text) = separatorOffset? text := by
  have mark (d : Char) (other : d.isAlpha = false) (i : Nat) : (small text)[i]? = some d ↔ text[i]? = some d :=
    Text.getElem?_small_eq_iff other i
  simp only [separatorOffset?, nameLength?_small, Text.drop_small, argumentLength_small,
    mark '(' (by decide), mark ',' (by decide), mark ')' (by decide)]

theorem any_map_toLower {p : Char → Bool} (blind : p ∘ Char.toLower = p) (before : Option Char) :
    (before.map Char.toLower).any p = before.any p := by
  cases before with
  | none => rfl
  | some c => exact congrFun blind c

theorem markFrom_small (before : Option Char) (text : List Char) :
    markFrom (before.map Char.toLower) (small text) = small (markFrom before text) := by
  fun_induction markFrom before text with
  | case1 => rw [small, List.map_nil, markFrom]
  | case2 before c rest offset comma found ih =>
    have call : (if (before.map Char.toLower).any isWord then none else separatorOffset? (small (c :: rest))) =
        some comma := by
      rw [any_map_toLower Text.isWord_toLower, separatorOffset?_small]
      exact found
    have tail : markFrom (some separatorMark) (small (rest.drop comma)) =
        small (markFrom (some separatorMark) (rest.drop comma)) := ih
    rw [small, List.map_cons] at call
    rw [small, List.map_cons, markFrom]
    simp only [call]
    rw [← List.map_cons, ← small, ← small, Text.take_small, Text.drop_small, tail, small_append]
    rfl
  | case3 before c rest offset found ih =>
    have none : (if (before.map Char.toLower).any isWord then none else separatorOffset? (small (c :: rest))) =
        none := by
      rw [any_map_toLower Text.isWord_toLower, separatorOffset?_small]
      exact found
    have tail : markFrom (some c.toLower) (small rest) = small (markFrom (some c) rest) := ih
    rw [small, List.map_cons] at none
    rw [small, List.map_cons, markFrom]
    simp only [none]
    rw [← small, tail]
    rfl

theorem pointFrom_small (before : Option Char) (text : List Char) :
    pointFrom (before.map Char.toLower) (small text) = small (pointFrom before text) := by
  induction text generalizing before with
  | nil => rfl
  | cons c rest ih =>
    have tail : pointFrom (some c.toLower) (small rest) = small (pointFrom (some c) rest) := ih (some c)
    have behind : (small rest).head?.any Char.isDigit = rest.head?.any Char.isDigit := by
      rw [small, List.head?_map, any_map_toLower Text.isDigit_toLower]
    rw [small, List.map_cons, pointFrom, ← small, tail, behind, any_map_toLower Text.isDigit_toLower, pointFrom]
    simp only [toLower_eq_iff (show ','.isAlpha = false by decide)]
    split <;> rfl

theorem unmark_toLower (c : Char) : unmark c.toLower = (unmark c).toLower := by
  unfold unmark
  simp only [toLower_eq_iff (show separatorMark.isAlpha = false by decide)]
  split <;> rfl

theorem decimalCommasToPoints_small (formula : List Char) :
    decimalCommasToPoints (small formula) = small (decimalCommasToPoints formula) := by
  have marked : markSeparators (small formula) = small (markSeparators formula) := markFrom_small none formula
  have pointed : pointFrom none (small (markSeparators formula)) = small (pointFrom none (markSeparators formula)) :=
    pointFrom_small none (markSeparators formula)
  rw [decimalCommasToPoints, marked, pointed, small, List.map_map, decimalCommasToPoints, small, List.map_map]
  exact List.map_congr_left fun c _ => unmark_toLower c

theorem prepare_small (base : NumeralBase) (formula : List Char) :
    prepare base (small formula) = (prepare base formula).map small := by
  have marks : (small formula).findIdx? (· = separatorMark) = formula.findIdx? (· = separatorMark) := by
    rw [small, List.findIdx?_map]
    simp only [Function.comp_def, toLower_eq_iff (show separatorMark.isAlpha = false by decide)]
  rw [prepare, marks, prepare, literalsInDecimal_small, decimalCommasToPoints_small]
  cases formula.findIdx? (· = separatorMark) <;> rfl

end Small

/-- No capital letter of the name `n√` stands in front of a root sign. -/
def NoCapitalRoot (text : List Char) : Prop := text.IsChain fun c d => ¬ (c = 'N' ∧ d = '√')

instance (text : List Char) : Decidable (NoCapitalRoot text) :=
  inferInstanceAs (Decidable (text.IsChain fun c d => ¬ (c = 'N' ∧ d = '√')))

section CapitalRoot

variable {base : NumeralBase} {word text rest formula prepared out : List Char} {c d : Char}

theorem noCapitalRoot_cons :
    NoCapitalRoot (c :: rest) ↔ ¬ (c = 'N' ∧ rest.head? = some '√') ∧ NoCapitalRoot rest := by
  rw [NoCapitalRoot, List.isChain_cons]
  refine and_congr_left fun _ => ⟨fun apart both => ?_, fun apart d first both => ?_⟩
  · exact apart '√' both.2 ⟨both.1, rfl⟩
  · exact apart ⟨both.1, both.2 ▸ first⟩

theorem noCapitalRoot_append : NoCapitalRoot (text ++ rest) ↔
    NoCapitalRoot text ∧ NoCapitalRoot rest ∧ ¬ (text.getLast? = some 'N' ∧ rest.head? = some '√') := by
  rw [NoCapitalRoot, List.isChain_append]
  refine and_congr_right fun _ => and_congr_right fun _ => ⟨fun apart both => ?_, fun apart c last d first both => ?_⟩
  · exact apart 'N' both.1 '√' both.2 ⟨rfl, rfl⟩
  · exact apart ⟨both.1 ▸ last, both.2 ▸ first⟩

theorem noCapitalRoot_of_no_root (plain : '√' ∉ text) : NoCapitalRoot text := by
  induction text with
  | nil => exact .nil
  | cons c rest ih =>
    refine noCapitalRoot_cons.mpr ⟨fun both => ?_, ih fun member => plain (List.mem_cons_of_mem _ member)⟩
    exact plain (List.mem_cons_of_mem _ (List.mem_of_mem_head? both.2))

theorem root_not_mem_word (inside : ∀ c ∈ word, isWord c = true) : '√' ∉ word := by
  intro member
  have root : isWord '√' = false := by decide +kernel
  rw [inside '√' member] at root
  cases root

theorem noCapitalRoot_word_append (inside : ∀ c ∈ word, isWord c = true) : NoCapitalRoot (word ++ rest) ↔
    NoCapitalRoot rest ∧ ¬ (word.getLast? = some 'N' ∧ rest.head? = some '√') := by
  have plain : NoCapitalRoot word := noCapitalRoot_of_no_root (root_not_mem_word inside)
  rw [noCapitalRoot_append, and_iff_right plain]

theorem getLast?_literalInDecimal (base : NumeralBase) (word : List Char) :
    (literalInDecimal base word).getLast? = some 'N' ↔ word.getLast? = some 'N' := by
  have ends {base : NumeralBase} {word : List Char} (numeral : word.all base.isDigit = true) :
      word.getLast? ≠ some 'N' := by
    intro last
    have digit := List.all_eq_true.mp numeral 'N' (List.mem_of_getLast? last)
    cases base <;> exact absurd digit (by decide)
  by_cases numeral : word.all base.isDigit = true
  · unfold literalInDecimal
    split
    · split
      · exact iff_of_false (ends (NumeralBase.all_isDigit_digits .decimal _)) (ends numeral)
      · rfl
    · rfl
  · rw [literalInDecimal_other (Bool.eq_false_iff.mpr numeral)]

theorem head?_mapWords {convert : List Char → List Char} (leaves : Text.Leaves isWord text) :
    (mapWords convert text).head? = text.head? := by
  cases text with
  | nil => rw [mapWords]
  | cons c rest =>
    have other : ¬ isWord c = true := by simp [Text.leaves_cons.mp leaves]
    rw [mapWords, if_neg other]
    rfl

theorem noCapitalRoot_mapWords (base : NumeralBase) (text : List Char) :
    NoCapitalRoot (mapWords (literalInDecimal base) text) ↔ NoCapitalRoot text := by
  fun_induction mapWords (literalInDecimal base) text with
  | case1 => rfl
  | case2 c rest word ih =>
    have inside : ∀ d ∈ c :: rest.takeWhile isWord, isWord d = true := Text.forall_mem_firstRun word
    have split : (c :: rest.takeWhile isWord) ++ rest.dropWhile isWord = c :: rest := Text.firstRun_append
    rw [← split, noCapitalRoot_word_append (fun _ => isWord_of_mem_literalInDecimal inside _),
      noCapitalRoot_word_append inside, ih, getLast?_literalInDecimal, head?_mapWords Text.leaves_dropWhile]
  | case3 c rest other ih =>
    have notN : ¬ c = 'N' := by
      rintro rfl
      exact other (by decide)
    rw [noCapitalRoot_cons, noCapitalRoot_cons, ih]
    simp [notN]

theorem noCapitalRoot_literalsInDecimal (base : NumeralBase) (formula : List Char) :
    NoCapitalRoot (literalsInDecimal base formula) ↔ NoCapitalRoot formula := by
  unfold literalsInDecimal
  split
  · rfl
  · exact noCapitalRoot_mapWords base formula

theorem Pointed.eq_iff (pointed : Pointed d c) {letter : Char} (notPoint : letter ≠ '.') (notComma : letter ≠ ',') :
    d = letter ↔ c = letter := by
  rcases pointed with rfl | ⟨rfl, rfl⟩
  · rfl
  · exact iff_of_false notPoint.symm notComma.symm

theorem noCapitalRoot_of_pointed (pointed : List.Forall₂ Pointed out text) :
    NoCapitalRoot out ↔ NoCapitalRoot text := by
  induction pointed with
  | nil => rfl
  | cons first others ih =>
    have next : ∀ {out text : List Char}, List.Forall₂ Pointed out text →
        (out.head? = some '√' ↔ text.head? = some '√') := by
      intro out text pointed
      cases pointed with
      | nil => rfl
      | cons first _ => simpa using first.eq_iff (by decide) (by decide)
    rw [noCapitalRoot_cons, noCapitalRoot_cons, ih, next others, first.eq_iff (by decide) (by decide)]

theorem noCapitalRoot_closeParentheses (formula : List Char) :
    NoCapitalRoot (closeParentheses formula) ↔ NoCapitalRoot formula := by
  have closing : '√' ∉ List.replicate (unclosed formula) ')' := fun member =>
    absurd (List.eq_of_mem_replicate member) (by decide)
  have first : (List.replicate (unclosed formula) ')').head? ≠ some '√' := fun head =>
    closing (List.mem_of_mem_head? head)
  rw [closeParentheses, noCapitalRoot_append]
  simp [noCapitalRoot_of_no_root closing, first]

theorem mem_of_mem_mapWords {convert : List Char → List Char}
    (keeps : ∀ word, (∀ c ∈ word, isWord c = true) → ∀ c ∈ convert word, isWord c = true)
    (other : isWord c = false) (member : c ∈ mapWords convert text) : c ∈ text := by
  fun_induction mapWords convert text with
  | case1 => exact member
  | case2 d rest word ih =>
    rcases List.mem_append.mp member with converted | later
    · rw [keeps _ (Text.forall_mem_firstRun word) c converted] at other
      cases other
    · exact List.mem_cons_of_mem _ ((List.dropWhile_sublist isWord).subset (ih later))
  | case3 d rest between ih =>
    rcases List.mem_cons.mp member with rfl | later
    · exact List.mem_cons_self
    · exact List.mem_cons_of_mem _ (ih later)

theorem unmarked_literalsInDecimal (unmarked : separatorMark ∉ formula) :
    separatorMark ∉ literalsInDecimal base formula := by
  intro member
  unfold literalsInDecimal at member
  split at member
  · exact unmarked member
  · exact unmarked (mem_of_mem_mapWords (fun _ => isWord_of_mem_literalInDecimal) isWord_separatorMark member)

theorem unmarked_of_prepare (prepares : prepare base formula = .ok prepared) : separatorMark ∉ formula := by
  unfold prepare at prepares
  split at prepares
  · cases prepares
  · rename_i absent
    intro member
    have plain := List.findIdx?_eq_none_iff.mp absent separatorMark member
    simp at plain

theorem noCapitalRoot_prepare (prepares : prepare base (closeParentheses formula) = .ok prepared) :
    NoCapitalRoot prepared ↔ NoCapitalRoot formula := by
  have unmarked := unmarked_of_prepare prepares
  rw [prepare_of_unmarked base unmarked] at prepares
  cases prepares
  rw [noCapitalRoot_of_pointed (pointed_decimalCommasToPoints (unmarked_literalsInDecimal unmarked)),
    noCapitalRoot_literalsInDecimal, noCapitalRoot_closeParentheses]

end CapitalRoot

end Calculator.Formula
