import Calculator.Proofs.Formula.Calls
import Calculator.Proofs.Token.Scanning

namespace Calculator.Formula

open Text (isWord)

def previous (before : Option Char) (text : List Char) : Nat → Option Char
  | 0 => before
  | i + 1 => text[i]?

structure IsDecimalComma (formula : List Char) (i : Nat) : Prop where
  comma : formula[i]? = some ','
  before : (previous none formula i).any Char.isDigit = true
  behind : formula[i + 1]?.any Char.isDigit = true
  notSeparating : ¬ SeparatesArguments none formula i

variable {before : Option Char} {text formula : List Char} {i : Nat}

theorem SeparatesArguments.comma (separates : SeparatesArguments before text i) :
    text[i]? = some ',' := by
  obtain ⟨front, rest, offset, rfl, call, _, rfl⟩ := separates
  rw [List.getElem?_append_right (Nat.le_add_right _ _), Nat.add_sub_cancel_left]
  exact getElem?_of_separatorOffset? (separatorOffset?_eq_some_iff.mpr call)

theorem previous_cons (before : Option Char) (c : Char) (rest : List Char) (i : Nat) :
    previous before (c :: rest) (i + 1) = previous (some c) rest i := by
  cases i <;> rfl

theorem getElem?_pointFrom (before : Option Char) (text : List Char) (i : Nat) :
    (pointFrom before text)[i]? = text[i]?.map fun c =>
      if c = ',' ∧ (previous before text i).any Char.isDigit ∧ text[i + 1]?.any Char.isDigit then '.'
      else c := by
  induction text generalizing before i with
  | nil => rfl
  | cons c rest ih =>
    cases i with
    | zero =>
      rw [pointFrom, List.head?_eq_getElem?]
      rfl
    | succ i =>
      rw [pointFrom, List.getElem?_cons_succ, ih, previous_cons]
      rfl

theorem any_isDigit_markFrom (before : Option Char) (text : List Char) (i : Nat) :
    (markFrom before text)[i]?.any Char.isDigit = text[i]?.any Char.isDigit := by
  obtain ⟨marked, kept⟩ := markedAt_markFrom before text i
  by_cases separates : SeparatesArguments before text i
  · rw [marked separates, separates.comma]
    decide
  · rw [kept separates]

theorem previous_markFrom (before : Option Char) (text : List Char) (i : Nat) :
    (previous before (markFrom before text) i).any Char.isDigit =
      (previous before text i).any Char.isDigit := by
  cases i with
  | zero => rfl
  | succ i => exact any_isDigit_markFrom before text i

theorem length_pointFrom (before : Option Char) (text : List Char) :
    (pointFrom before text).length = text.length := by
  induction text generalizing before with
  | nil => rfl
  | cons c rest ih => rw [pointFrom, List.length_cons, List.length_cons, ih]

theorem length_decimalCommasToPoints (formula : List Char) :
    (decimalCommasToPoints formula).length = formula.length := by
  rw [decimalCommasToPoints, List.length_map, length_pointFrom, markSeparators, length_markFrom]

theorem getElem?_decimalCommasToPoints (formula : List Char) (i : Nat) :
    (decimalCommasToPoints formula)[i]? = ((markSeparators formula)[i]?.map fun c =>
      if c = ',' ∧ (previous none formula i).any Char.isDigit ∧ formula[i + 1]?.any Char.isDigit then '.'
      else c).map unmark := by
  rw [decimalCommasToPoints, List.getElem?_map, getElem?_pointFrom, markSeparators, previous_markFrom,
    any_isDigit_markFrom]

theorem point_of_isDecimalComma (decimal : IsDecimalComma formula i) :
    (decimalCommasToPoints formula)[i]? = some '.' := by
  have kept := (markedAt_markFrom none formula i).2 decimal.notSeparating
  rw [getElem?_decimalCommasToPoints, markSeparators, kept, decimal.comma]
  simp [decimal.before, decimal.behind]
  decide

theorem kept_of_not_isDecimalComma (unmarked : separatorMark ∉ formula)
    (other : ¬ IsDecimalComma formula i) : (decimalCommasToPoints formula)[i]? = formula[i]? := by
  obtain ⟨marked, kept⟩ := markedAt_markFrom none formula i
  rw [getElem?_decimalCommasToPoints, markSeparators]
  by_cases separates : SeparatesArguments none formula i
  · have notComma : separatorMark ≠ ',' := by decide
    rw [marked separates, separates.comma]
    simp [notComma, unmark]
  · rw [kept separates]
    cases here : formula[i]? with
    | none => rfl
    | some c =>
      have notPoint : ¬ (c = ',' ∧ (previous none formula i).any Char.isDigit ∧
          formula[i + 1]?.any Char.isDigit) := by
        rintro ⟨rfl, before, behind⟩
        exact other ⟨here, before, behind, separates⟩
      have notMark : c ≠ separatorMark := fun mark => unmarked (mark ▸ List.mem_of_getElem? here)
      simp only [Option.map_some, if_neg notPoint, unmark, if_neg notMark]

/-- A character as it was, or a point for a comma. -/
def Pointed (d c : Char) : Prop := d = c ∨ d = '.' ∧ c = ','

theorem pointed_decimalCommasToPoints (unmarked : separatorMark ∉ formula) :
    List.Forall₂ Pointed (decimalCommasToPoints formula) formula := by
  rw [List.forall₂_iff_get]
  refine ⟨length_decimalCommasToPoints formula, fun i inside inside' => ?_⟩
  rw [List.get_eq_getElem, List.get_eq_getElem]
  by_cases decimal : IsDecimalComma formula i
  · have point := point_of_isDecimalComma decimal
    have comma := decimal.comma
    rw [List.getElem?_eq_getElem inside] at point
    rw [List.getElem?_eq_getElem inside'] at comma
    exact .inr ⟨Option.some.inj point, Option.some.inj comma⟩
  · have kept := kept_of_not_isDecimalComma unmarked decimal
    rw [List.getElem?_eq_getElem inside, List.getElem?_eq_getElem inside'] at kept
    exact .inl (Option.some.inj kept)

variable {out front rest : List Char}

theorem eq_of_pointed (pointed : List.Forall₂ Pointed out text) (plain : ',' ∉ text) : out = text := by
  induction pointed with
  | nil => rfl
  | cons first others ih =>
    rename_i d c out text
    rcases first with rfl | ⟨_, rfl⟩
    · rw [ih fun member => plain (List.mem_cons_of_mem _ member)]
    · exact absurd List.mem_cons_self plain

theorem exists_of_pointed_append (pointed : List.Forall₂ Pointed out (front ++ rest)) :
    ∃ front' rest', out = front' ++ rest' ∧ List.Forall₂ Pointed front' front ∧
      List.Forall₂ Pointed rest' rest :=
  ⟨_, _, (List.take_append_drop front.length out).symm, List.forall₂_take_append _ _ _ pointed,
    List.forall₂_drop_append _ _ _ pointed⟩

theorem exists_of_pointed_plain (plain : ',' ∉ front)
    (pointed : List.Forall₂ Pointed out (front ++ rest)) :
    ∃ rest', out = front ++ rest' ∧ List.Forall₂ Pointed rest' rest := by
  obtain ⟨front', rest', rfl, pointedFront, pointedRest⟩ := exists_of_pointed_append pointed
  rw [eq_of_pointed pointedFront plain]
  exact ⟨rest', rfl, pointedRest⟩

/-- Points inside a text leave a call it begins with as it is, since nothing but the separating comma of a
call is a comma. -/
theorem BeginsCall.pointed {offset : Nat} (call : BeginsCall text offset)
    (pointed : List.Forall₂ Pointed out text) (comma : out[offset]? = some ',') : BeginsCall out offset := by
  obtain ⟨name, first, second, rest, rfl, listed, firstArgument, secondArgument, rfl⟩ := call
  have beforeComma : ',' ∉ name ++ '(' :: first := by
    simp [comma_not_mem_name listed, comma_not_mem_argument firstArgument]
  have behindComma : ',' ∉ second ++ [')'] := by simp [comma_not_mem_argument secondArgument]
  rw [show name ++ '(' :: (first ++ ',' :: (second ++ ')' :: rest)) =
    (name ++ '(' :: first) ++ ',' :: ((second ++ [')']) ++ rest) by simp] at pointed
  obtain ⟨tail, rfl, pointedTail⟩ := exists_of_pointed_plain beforeComma pointed
  obtain ⟨d, tail, _, pointedBehind, rfl⟩ := List.forall₂_cons_right_iff.mp pointedTail
  obtain ⟨rest, rfl, _⟩ := exists_of_pointed_plain behindComma pointedBehind
  have separator : d = ',' := by
    rw [show name.length + 1 + first.length = (name ++ '(' :: first).length by simp; omega,
      List.getElem?_append_right (Nat.le_refl _), Nat.sub_self] at comma
    exact Option.some.inj comma
  subst separator
  exact ⟨name, first, second, rest, by simp, listed, firstArgument, secondArgument, rfl⟩

theorem isWord_of_pointed {d c : Char} (pointed : Pointed d c) : isWord d = isWord c := by
  rcases pointed with rfl | ⟨rfl, rfl⟩
  · rfl
  · rw [isWord_comma]
    decide

theorem any_isWord_getLast?_of_pointed (pointed : List.Forall₂ Pointed out text) :
    out.getLast?.any isWord = text.getLast?.any isWord := by
  induction pointed with
  | nil => rfl
  | cons first others ih =>
    cases others with
    | nil => exact isWord_of_pointed first
    | cons second others =>
      rw [List.getLast?_cons_cons, List.getLast?_cons_cons]
      exact ih

theorem SeparatesArguments.pointed (separates : SeparatesArguments none text i)
    (pointed : List.Forall₂ Pointed out text) (comma : out[i]? = some ',') :
    SeparatesArguments none out i := by
  obtain ⟨front, rest, offset, rfl, call, word, rfl⟩ := separates
  obtain ⟨front', rest', rfl, pointedFront, pointedRest⟩ := exists_of_pointed_append pointed
  have length := pointedFront.length_eq
  rw [← length, List.getElem?_append_right (Nat.le_add_right _ _), Nat.add_sub_cancel_left] at comma
  refine ⟨front', rest', offset, rfl, call.pointed pointedRest comma, ?_, by rw [length]⟩
  rw [Option.or_none] at word ⊢
  rw [any_isWord_getLast?_of_pointed pointedFront, word]

theorem kept_of_ne_point {d : Char} (unmarked : separatorMark ∉ formula)
    (found : (decimalCommasToPoints formula)[i]? = some d) (other : d ≠ '.') : formula[i]? = some d := by
  by_cases decimal : IsDecimalComma formula i
  · rw [point_of_isDecimalComma decimal] at found
    exact absurd (Option.some.inj found).symm other
  · rw [← kept_of_not_isDecimalComma unmarked decimal, found]

theorem isDigit_of_decimalCommasToPoints (unmarked : separatorMark ∉ formula)
    (digit : (decimalCommasToPoints formula)[i]?.any Char.isDigit = true) :
    formula[i]?.any Char.isDigit = true := by
  cases found : (decimalCommasToPoints formula)[i]? with
  | none =>
    rw [found] at digit
    cases digit
  | some d =>
    rw [found] at digit
    have notPoint : d ≠ '.' := by
      rintro rfl
      cases digit
    rw [kept_of_ne_point unmarked found notPoint]
    exact digit

theorem not_isDecimalComma_decimalCommasToPoints (unmarked : separatorMark ∉ formula) :
    ¬ IsDecimalComma (decimalCommasToPoints formula) i := by
  -- a comma that is left was none between digits or separates arguments, and both stay so among the points
  intro ⟨comma, before, behind, notSeparating⟩
  have commaThere := kept_of_ne_point unmarked comma (by decide)
  have behindThere := isDigit_of_decimalCommasToPoints unmarked behind
  have beforeThere : (previous none formula i).any Char.isDigit = true := by
    cases i with
    | zero => exact before
    | succ i => exact isDigit_of_decimalCommasToPoints unmarked before
  by_cases separates : SeparatesArguments none formula i
  · exact notSeparating (separates.pointed (pointed_decimalCommasToPoints unmarked) comma)
  · rw [point_of_isDecimalComma ⟨commaThere, beforeThere, behindThere, separates⟩] at comma
    cases comma

theorem not_mem_decimalCommasToPoints (unmarked : separatorMark ∉ formula) :
    separatorMark ∉ decimalCommasToPoints formula := by
  intro member
  obtain ⟨i, found⟩ := List.mem_iff_getElem?.mp member
  exact unmarked (List.mem_of_getElem? (kept_of_ne_point unmarked found (by decide)))

theorem decimalCommasToPoints_idem (unmarked : separatorMark ∉ formula) :
    decimalCommasToPoints (decimalCommasToPoints formula) = decimalCommasToPoints formula := by
  apply List.ext_getElem?
  intro i
  exact kept_of_not_isDecimalComma (not_mem_decimalCommasToPoints unmarked)
    (not_isDecimalComma_decimalCommasToPoints unmarked)

theorem prepare_decimal_of_unmarked (unmarked : separatorMark ∉ formula) :
    prepare .decimal formula = .ok (decimalCommasToPoints formula) := by
  rw [prepare_of_unmarked .decimal unmarked]
  rfl

/-- Preparing a decimal formula makes points of its decimal commas, keeps all other characters, each at its
place, and leaves nothing to do for a second time. The scan for calls marks their separating commas and no
others. -/
theorem prepare_decimal_pointwise (formula : List Char) (unmarked : separatorMark ∉ formula) :
    ∃ out, prepare .decimal formula = .ok out ∧ out.length = formula.length ∧
      (∀ i, (IsDecimalComma formula i → out[i]? = some '.') ∧
        (¬ IsDecimalComma formula i → out[i]? = formula[i]?)) ∧
      (∀ i, (SeparatesArguments none formula i → (markSeparators formula)[i]? = some separatorMark) ∧
        (¬ SeparatesArguments none formula i → (markSeparators formula)[i]? = formula[i]?)) ∧
      separatorMark ∉ out ∧
      (∀ tokens, Token.scan out = .ok tokens → ∀ t ∈ tokens, t.position ≤ formula.length) ∧
      (∀ e, Token.scan out = .error e → e.position < formula.length) ∧
      prepare .decimal out = .ok out := by
  have length := length_decimalCommasToPoints formula
  refine ⟨decimalCommasToPoints formula, prepare_decimal_of_unmarked unmarked, length, fun i => ?_,
    markedAt_markFrom none formula, not_mem_decimalCommasToPoints unmarked, ?_, ?_, ?_⟩
  · exact ⟨point_of_isDecimalComma, kept_of_not_isDecimalComma unmarked⟩
  · intro tokens scans
    rw [← length]
    exact Token.position_le_of_scan scans
  · intro e fails
    rw [← length]
    exact Token.position_lt_of_scan fails
  · rw [prepare_decimal_of_unmarked (not_mem_decimalCommasToPoints unmarked),
      decimalCommasToPoints_idem unmarked]

theorem prepare_decimal_call : separatorMark ∉ "1,5+Log(8,2)*2,5".toList ∧
    prepare .decimal "1,5+Log(8,2)*2,5".toList = .ok "1.5+Log(8,2)*2.5".toList ∧
    prepare .decimal "1.5+Log(8,2)*2.5".toList = .ok "1.5+Log(8,2)*2.5".toList := by
  have unmarked : separatorMark ∉ "1,5+Log(8,2)*2,5".toList := by decide
  have known : prepare .decimal "1,5+Log(8,2)*2,5".toList = .ok "1.5+Log(8,2)*2.5".toList := by decide +kernel
  obtain ⟨out, prepares, _, _, _, _, _, _, again⟩ := prepare_decimal_pointwise _ unmarked
  rw [known] at prepares
  cases prepares
  exact ⟨unmarked, known, again⟩

end Calculator.Formula
