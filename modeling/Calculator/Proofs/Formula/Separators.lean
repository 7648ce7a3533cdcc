import Calculator.Proofs.Formula.Points
import Calculator.Proofs.Token.Places

namespace Calculator.Formula

open Calculator.Expr (Derives called makesNode ofTokens)
open Text (isWord fold foldChar)
open Token (Lexeme isSpacing scan tokensOf textOf)

section Characters

variable {name gap first second front rest : List Char}

theorem not_isSpacing_of_listed (listed : fold name ∈ namesWithSeparator) {c : Char}
    (ends : name.getLast? = some c) : isSpacing c = false := by
  let endsName (c : Char) : Bool := namesWithSeparator.any fun listed => listed.getLast? == some (foldChar c)
  have folded : (fold name).getLast? = some (foldChar c) := by
    rw [fold, List.getLast?_map, ends]
    rfl
  have known : endsName c = true := List.any_eq_true.mpr ⟨_, listed, by simp [folded]⟩
  exact Token.not_isSpacing known (by decide)

theorem eq_of_last_openParen {a b x y : List Char} (plain : '(' ∉ x) (plain' : '(' ∉ y)
    (same : a ++ '(' :: x = b ++ '(' :: y) : a = b := by
  rcases List.append_eq_append_iff.mp same with ⟨more, rfl, tail⟩ | ⟨more, rfl, tail⟩
  · cases more with
    | nil => exact (List.append_nil a).symm
    | cons c more =>
      obtain ⟨rfl, rfl⟩ := List.cons.inj tail
      simp at plain
  · cases more with
    | nil => exact List.append_nil b
    | cons c more =>
      obtain ⟨rfl, rfl⟩ := List.cons.inj tail
      simp at plain'

theorem openParen_not_mem_argument {text : List Char} (argument : IsArgument text) : '(' ∉ text :=
  fun member => absurd (argument.2 '(' member) (by decide)

/-- Only right behind its name does the scan find the parenthesis of a call. -/
theorem separatesArguments_iff_gap (listed : fold name ∈ namesWithSeparator)
    (word : front.getLast?.any isWord = false) (blanks : ∀ c ∈ gap, isSpacing c = true)
    (firstArgument : IsArgument first) (secondArgument : IsArgument second) :
    SeparatesArguments none (front ++ (name ++ (gap ++ '(' :: (first ++ ',' :: (second ++ ')' :: rest)))))
      (front.length + name.length + gap.length + 1 + first.length) ↔ gap = [] := by
  constructor
  · rintro ⟨front', after, offset, split, call, _, place⟩
    obtain ⟨name', first', second', rest', rfl, listed', firstArgument', _, rfl⟩ := call
    have parts : ((front ++ (name ++ gap)) ++ '(' :: first) ++ ',' :: (second ++ ')' :: rest) =
        ((front' ++ name') ++ '(' :: first') ++ ',' :: (second' ++ ')' :: rest') := by simpa using split
    have lengths : ((front ++ (name ++ gap)) ++ '(' :: first).length =
        ((front' ++ name') ++ '(' :: first').length := by
      simp only [List.length_append, List.length_cons]
      omega
    have same := eq_of_last_openParen (openParen_not_mem_argument firstArgument)
      (openParen_not_mem_argument firstArgument') (List.append_inj_left parts lengths)
    rcases List.eq_nil_or_concat gap with none | ⟨blanks', blank, rfl⟩
    · exact none
    · have ends : (front' ++ name').getLast? = some blank := by simp [← same]
      have nonempty : name' ≠ [] := by
        rintro rfl
        exact absurd listed' (by decide)
      rw [List.getLast?_append_of_ne_nil _ nonempty] at ends
      have solid := not_isSpacing_of_listed listed' ends
      rw [blanks blank (by simp)] at solid
      cases solid
  · rintro rfl
    exact ⟨front, _, name.length + 1 + first.length, rfl,
      ⟨name, first, second, rest, by simp, listed, firstArgument, secondArgument, rfl⟩, by simpa using word,
      by simp; omega⟩

end Characters

section Tokens

variable {before behind first second : List Token} {lexemes : List Lexeme} {l : Lexeme} {name : String}
  {position p q r c : Nat}

theorem endsArgument_of_lexeme (formed : l.WellFormed)
    (plain : ∀ s ∈ l.symbol?, makesNode ⟨s, 0⟩ = true) : ∀ c ∈ l.text, endsArgument c = false := by
  intro c member
  cases ends : endsArgument c with
  | false => rfl
  | true =>
    rcases formed.ordinary_or_mark with ordinary | ⟨s, isMark, rfl⟩
    · have apart : Token.isOrdinary c = false := by
        simp only [endsArgument, Bool.or_eq_true, beq_iff_eq] at ends
        rcases ends with (rfl | rfl) | rfl <;> decide
      rw [ordinary c member] at apart
      cases apart
    · have known : ∀ s ∈ Token.marks, makesNode ⟨s, 0⟩ = true →
          (s.text.toList.all fun c => !endsArgument c) = true := by decide
      have inside := List.all_eq_true.mp (known s isMark (plain s rfl)) c member
      rw [ends] at inside
      cases inside

theorem isArgument_textOf (formed : ∀ l ∈ lexemes, l.WellFormed) (nonempty : tokensOf position lexemes ≠ [])
    (plain : ∀ t ∈ tokensOf position lexemes, makesNode t = true) : IsArgument (textOf lexemes) := by
  constructor
  · intro empty
    cases lexemes with
    | nil => exact nonempty rfl
    | cons l lexemes =>
      exact (List.forall_mem_cons.mp formed).1.text_ne_nil (List.append_eq_nil_iff.mp empty).1
  · intro c member
    obtain ⟨l, inside, here⟩ := List.mem_flatMap.mp member
    refine endsArgument_of_lexeme (formed l inside) (fun s symbol => ?_) c here
    have symbols : s ∈ (tokensOf position lexemes).map Token.symbol := by
      rw [Token.map_symbol_tokensOf]
      exact List.mem_filterMap.mpr ⟨l, inside, symbol⟩
    obtain ⟨t, isToken, rfl⟩ := List.mem_map.mp symbols
    exact plain t isToken

theorem separatorMark_not_mem_textOf (formed : ∀ l ∈ lexemes, l.WellFormed) :
    separatorMark ∉ textOf lexemes := by
  intro member
  obtain ⟨l, inside, here⟩ := List.mem_flatMap.mp member
  rcases (formed l inside).ordinary_or_mark with ordinary | ⟨s, isMark, rfl⟩
  · exact absurd (ordinary _ here) (by decide)
  · have known : ∀ s ∈ Token.marks, separatorMark ∉ s.text.toList := by decide
    exact known s isMark here

theorem exists_text_of_called (formed : ∀ l ∈ lexemes, l.WellFormed)
    (call : tokensOf 0 lexemes = before ++ (called name p q (first ++ ⟨.comma, c⟩ :: second) r ++ behind))
    (plain : ∀ t ∈ first ++ second, makesNode t = true) (nonempty : first ≠ []) (nonempty' : second ≠ [])
    (apart : ∀ t ∈ before.getLast?, t.isOperand = false) :
    ∃ front gap argument argument' rest,
      textOf lexemes = front ++ (name.toList ++ (gap ++ '(' :: (argument ++ ',' :: (argument' ++ ')' :: rest)))) ∧
      front.getLast?.any isWord = false ∧ (∀ c ∈ gap, isSpacing c = true) ∧ IsArgument argument ∧
      IsArgument argument' ∧ p = front.length ∧ q = p + name.length + gap.length ∧
      c = q + 1 + argument.length := by
  have parts : tokensOf 0 lexemes = before ++ ⟨.name name, p⟩ :: ⟨.openParen, q⟩ ::
      (first ++ ⟨.comma, c⟩ :: (second ++ ⟨.closeParen, r⟩ :: behind)) := by simp [call, called]
  obtain ⟨front, l, more, rfl, tokens, symbol, place, opens⟩ := Token.exists_split_of_tokensOf parts
  obtain ⟨formedFront, formedCall⟩ := List.forall_mem_append.mp formed
  obtain ⟨formedName, formedMore⟩ := List.forall_mem_cons.mp formedCall
  obtain rfl := formedName.eq_name symbol
  obtain ⟨gap, more, rfl, none, placeOpen, inside⟩ :=
    Token.exists_mark_of_tokensOf (by simp [Token.marks]) (opens.trans (List.nil_append _).symm)
  obtain ⟨argument, more, rfl, tokensFirst, placeComma, further⟩ :=
    Token.exists_mark_of_tokensOf (by simp [Token.marks]) inside
  obtain ⟨argument', rest, rfl, tokensSecond, _, _⟩ :=
    Token.exists_mark_of_tokensOf (by simp [Token.marks]) further
  simp only [List.forall_mem_append, List.forall_mem_cons] at formedMore
  obtain ⟨formedGap, _, formedFirst, _, formedSecond, _⟩ := formedMore
  obtain ⟨plainFirst, plainSecond⟩ := List.forall_mem_append.mp plain
  refine ⟨textOf front, textOf gap, textOf argument, textOf argument', textOf rest, ?_,
    Token.any_isWord_getLast?_textOf formedFront (tokens ▸ apart), Token.isSpacing_of_tokensOf formedGap none,
    isArgument_textOf formedFirst (tokensFirst ▸ nonempty) (tokensFirst ▸ plainFirst),
    isArgument_textOf formedSecond (tokensSecond ▸ nonempty') (tokensSecond ▸ plainSecond), ?_, ?_, ?_⟩
  · simp [textOf, Lexeme.text, Symbol.text]
  · simpa using place
  · simpa [Lexeme.text, String.length_toList] using placeOpen
  · simpa [Symbol.text] using placeComma

end Tokens

section Commas

variable {formula source : List Char} {tokens : List Token} {last : Value} {e : Expr} {i : Nat}

def BetweenDigits (formula : List Char) (i : Nat) : Prop :=
  (previous none formula i).any Char.isDigit = true ∧ formula[i + 1]?.any Char.isDigit = true

def IsOnlyComma (formula : List Char) (i : Nat) : Prop := ∀ j, formula[j]? = some ',' → j = i

theorem isDecimalComma_iff (comma : formula[i]? = some ',') :
    IsDecimalComma formula i ↔ BetweenDigits formula i ∧ ¬ SeparatesArguments none formula i :=
  ⟨fun decimal => ⟨⟨decimal.before, decimal.behind⟩, decimal.notSeparating⟩,
    fun ⟨⟨before, behind⟩, notSeparating⟩ => ⟨comma, before, behind, notSeparating⟩⟩

theorem decimalCommasToPoints_of_only_comma (unmarked : separatorMark ∉ formula) (only : IsOnlyComma formula i)
    (other : ¬ IsDecimalComma formula i) : decimalCommasToPoints formula = formula := by
  refine List.ext_getElem? fun j => kept_of_not_isDecimalComma unmarked fun decimal => ?_
  rw [only j decimal.comma] at decimal
  exact other decimal

theorem comma_not_mem_decimalCommasToPoints (unmarked : separatorMark ∉ formula) (only : IsOnlyComma formula i)
    (decimal : IsDecimalComma formula i) : ',' ∉ decimalCommasToPoints formula := by
  intro member
  obtain ⟨j, found⟩ := List.mem_iff_getElem?.mp member
  have here := only j (kept_of_ne_point unmarked found (by decide))
  rw [here, point_of_isDecimalComma decimal] at found
  cases found

theorem exists_derives_of_scan (scans : scan source = .ok tokens) (parses : ofTokens last tokens = .ok e) :
    ∃ lexemes n, (∀ l ∈ lexemes, l.WellFormed) ∧ source = textOf lexemes ∧
      tokens = tokensOf 0 lexemes ++ [⟨.done, source.length⟩] ∧ Derives last .sum (tokensOf 0 lexemes) e n := by
  obtain ⟨lexemes, cut, _, split, rfl⟩ := Token.exists_cut_of_scan scans
  obtain ⟨word, final, rest, n, parts, ends, before, derives, _⟩ := Expr.ofTokens_eq_ok_iff.mp parses
  have unended : ∀ t ∈ tokensOf 0 lexemes, t.symbol ≠ .done := Token.ne_done_of_mem_tokensOf cut.wellFormed
  have same : (tokensOf 0 lexemes ++ [Token.mk .done source.length]).takeWhile (fun t => t.symbol ≠ .done) =
      tokensOf 0 lexemes := Expr.takeWhile_before_end unended rfl
  rw [parts, Expr.takeWhile_before_end before ends] at same
  exact ⟨lexemes, n, cut.wellFormed, split, rfl, same ▸ derives⟩

theorem not_mem_subtrees_of_no_comma (noComma : ',' ∉ source) (scans : scan source = .ok tokens)
    (parses : ofTokens last tokens = .ok e) (name : String) (f g : Expr) (p : Nat) :
    .call2 name f g p ∉ e.subtrees := by
  intro member
  obtain ⟨lexemes, n, formed, rfl, _, derives⟩ := exists_derives_of_scan scans parses
  have comma := derives.comma_mem member
  rw [Token.map_symbol_tokensOf] at comma
  obtain ⟨l, inside, symbol⟩ := List.mem_filterMap.mp comma
  obtain rfl := Lexeme.eq_mark symbol (by simp [Token.marks])
  exact noComma (List.mem_flatMap.mpr ⟨_, inside, List.mem_singleton.mpr rfl⟩)

end Commas

section Calls

variable {source : List Char} {tokens : List Token} {last : Value} {e : Expr} {name : String} {p q c : Nat}

/-- Among the tokens are a name and, in parentheses behind it, two arguments with neither parentheses nor
    commas. `c` is the place of the comma between them. -/
def WritesCall (tokens : List Token) (name : String) (p q c : Nat) : Prop :=
  ∃ before first second r behind,
    tokens = before ++ (called name p q (first ++ ⟨.comma, c⟩ :: second) r ++ behind) ∧
      ∀ t ∈ first ++ second, makesNode t = true

theorem separatesArguments_of_writesCall (scans : scan source = .ok tokens) (parses : ofTokens last tokens = .ok e)
    (call : WritesCall tokens name p q c) (listed : fold name.toList ∈ namesWithSeparator) :
    (∃ f g, .call2 name f g p ∈ e.subtrees) ∧ source[c]? = some ',' ∧ separatorMark ∉ source ∧
      (SeparatesArguments none source c ↔ q = p + name.length) := by
  obtain ⟨lexemes, n, formed, rfl, rfl, derives⟩ := exists_derives_of_scan scans parses
  obtain ⟨before, first, second, r, behind, split, plain⟩ := call
  have flat := Expr.isFlat_of_arguments (c := c) plain
  obtain ⟨behind, inside⟩ := Expr.exists_of_last (derives.foldlM_depthBehind 0) flat split rfl
  obtain ⟨f, g, _, _, member, derivesFirst, derivesSecond⟩ := derives.callsOn plain inside
  have apart : ∀ t ∈ before.getLast?, t.isOperand = false := by
    have chain := derives.operandsApart
    rw [inside] at chain
    intro t ends
    simpa [Token.isOperand] using (List.isChain_append.mp chain).2.2 t ends ⟨.name name, p⟩ rfl
  have unmarked := separatorMark_not_mem_textOf formed
  obtain ⟨front, gap, argument, argument', rest, text, word, blanks, isFirst, isSecond, rfl, rfl, rfl⟩ :=
    exists_text_of_called formed inside plain derivesFirst.ne_nil derivesSecond.ne_nil apart
  have separates : SeparatesArguments none (textOf lexemes) _ ↔ gap = [] :=
    text ▸ separatesArguments_iff_gap listed word blanks isFirst isSecond
  rw [String.length_toList] at separates
  refine ⟨⟨f, g, member⟩, ?_, unmarked, separates.trans ?_⟩
  · have parts : textOf lexemes = (front ++ (name.toList ++ (gap ++ '(' :: argument))) ++
        ',' :: (argument' ++ ')' :: rest) := by simp [text]
    have place : front.length + name.length + gap.length + 1 + argument.length =
        (front ++ (name.toList ++ (gap ++ '(' :: argument))).length := by
      simp [String.length_toList]
      omega
    rw [parts, place, List.getElem?_append_right (Nat.le_refl _), Nat.sub_self]
    rfl
  · rw [← List.length_eq_zero_iff]
    omega

/-- The comma of a call of a function of two arguments stays a comma unless there are blanks between the name and
    the parenthesis and digits on both sides of the comma. If the formula has no other comma, it stays as it is,
    with a call of two arguments, or has no such call any more. -/
theorem prepare_decimal_separator (scans : scan source = .ok tokens) (parses : ofTokens last tokens = .ok e)
    (call : WritesCall tokens name p q c) (listed : fold name.toList ∈ namesWithSeparator) :
    (∃ f g, .call2 name f g p ∈ e.subtrees) ∧ source[c]? = some ',' ∧
      ∃ prepared, prepare .decimal source = .ok prepared ∧
        (q = p + name.length ∨ ¬ BetweenDigits source c →
          prepared[c]? = some ',' ∧ (IsOnlyComma source c → prepared = source)) ∧
        (q ≠ p + name.length → BetweenDigits source c →
          prepared[c]? = some '.' ∧ (IsOnlyComma source c → ∀ tokens' e', scan prepared = .ok tokens' →
            ofTokens last tokens' = .ok e' → ∀ name' f g p', .call2 name' f g p' ∉ e'.subtrees)) := by
  obtain ⟨isCall, comma, unmarked, separates⟩ := separatesArguments_of_writesCall scans parses call listed
  have decimal := isDecimalComma_iff comma
  rw [separates] at decimal
  refine ⟨isCall, comma, _, prepare_decimal_of_unmarked unmarked, fun kept => ?_, fun gap digits => ?_⟩
  · have other : ¬ IsDecimalComma source c := by
      rw [decimal]
      tauto
    exact ⟨(kept_of_not_isDecimalComma unmarked other).trans comma,
      fun only => decimalCommasToPoints_of_only_comma unmarked only other⟩
  · have isDecimal := decimal.mpr ⟨digits, gap⟩
    exact ⟨point_of_isDecimalComma isDecimal, fun only tokens' e' scans' parses' =>
      not_mem_subtrees_of_no_comma (comma_not_mem_decimalCommasToPoints unmarked only isDecimal) scans' parses'⟩

theorem prepare_spaced_logarithm :
    let source := "1-Log (8, 2)".toList
    let tokens : List Token := [⟨.integer 1, 0⟩, ⟨.minus, 1⟩, ⟨.name "Log", 2⟩, ⟨.openParen, 6⟩, ⟨.integer 8, 7⟩,
      ⟨.comma, 8⟩, ⟨.integer 2, 10⟩, ⟨.closeParen, 11⟩, ⟨.done, 12⟩]
    let e : Expr := .binary .sub (.number (.integer 1) 0)
      (.call2 "Log" (.number (.integer 8) 7) (.number (.integer 2) 10) 2) 1
    scan source = .ok tokens ∧ ofTokens (.integer 0) tokens = .ok e ∧ WritesCall tokens "Log" 2 6 8 ∧
      fold "Log".toList ∈ namesWithSeparator ∧ prepare .decimal source = .ok source := by
  intro source tokens e
  have scans : scan source = .ok tokens := by decide +kernel
  have parses : ofTokens (.integer 0) tokens = .ok e := by decide +kernel
  have call : WritesCall tokens "Log" 2 6 8 :=
    ⟨[⟨.integer 1, 0⟩, ⟨.minus, 1⟩], [⟨.integer 8, 7⟩], [⟨.integer 2, 10⟩], 11, [⟨.done, 12⟩], rfl, by decide⟩
  have listed : fold "Log".toList ∈ namesWithSeparator := by decide
  have notBetween : ¬ BetweenDigits source 8 := fun ⟨_, behind⟩ => absurd behind (by decide)
  have only : IsOnlyComma source 8 := by
    have near : ∀ j < 12, source[j]? = some ',' → j = 8 := by decide
    exact fun j found => near j (List.getElem?_eq_some_iff.mp found).1 found
  obtain ⟨_, _, prepared, prepares, kept, _⟩ := prepare_decimal_separator scans parses call listed
  rw [(kept (.inr notBetween)).2 only] at prepares
  exact ⟨scans, parses, call, listed, prepares⟩

/-- With a blank in front of the parenthesis `8,2` becomes one number, and the only argument. -/
theorem prepare_logarithm_of_one_number :
    separatorMark ∉ "log (8,2)".toList ∧
      (scan "log (8,2)".toList).bind (ofTokens (.integer 0)) =
        .ok (.call2 "log" (.number (.integer 8) 5) (.number (.integer 2) 7) 0) ∧
      prepare .decimal "log (8,2)".toList = .ok "log (8.2)".toList ∧
      (scan "log (8.2)".toList).bind (ofTokens (.integer 0)) =
        .ok (.call1 "log" (.number (.real (Decimal.toReal ⟨82, -1⟩)) 5) 0) := by
  exact ⟨by decide, by decide +kernel, by decide +kernel, by decide +kernel⟩

end Calls

end Calculator.Formula
