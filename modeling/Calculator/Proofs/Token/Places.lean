import Calculator.Proofs.Expr.Words
import Calculator.Proofs.Token.Blanks

namespace Calculator.Token

open Text (isWord)

variable {position : Nat} {lexemes : List Lexeme} {front rest tokens : List Token} {t : Token} {l : Lexeme}
  {s : Symbol}

section Characters

def isOrdinary (c : Char) : Bool := isSpacing c || standsInName c || c == '.'

theorem Lexeme.WellFormed.ordinary_or_mark (formed : l.WellFormed) :
    (∀ c ∈ l.text, isOrdinary c = true) ∨ ∃ s ∈ marks, l = .mark s := by
  have digit {c : Char} (digit : c.isDigit = true) : isOrdinary c = true := by
    simp [isOrdinary, standsInName, continuesName, digit]
  cases l with
  | spacing text => exact .inl fun c member => by simp [isOrdinary, formed.2 c member]
  | whole digits => exact .inl fun c member => digit (formed.2 c member)
  | decimal digits places =>
    refine .inl (List.forall_mem_append.mpr ⟨fun c member => digit (formed.1.2 c member), ?_⟩)
    exact List.forall_mem_cons.mpr ⟨by decide, fun c member => digit (formed.2 c member)⟩
  | name text => exact .inl fun c member => by simp [isOrdinary, standsInName_of_isName formed c member]
  | mark s => exact .inr ⟨s, formed, rfl⟩

theorem Lexeme.symbol?_whole (digits : List Char) : (∃ n, (whole digits).symbol? = some (.integer n)) ∨
    ∃ x, (whole digits).symbol? = some (.real x) := by
  unfold symbol?
  dsimp only
  split
  · exact .inl ⟨_, rfl⟩
  · exact .inr ⟨_, rfl⟩

theorem Lexeme.eq_mark (symbol : l.symbol? = some s) (member : s ∈ marks) : l = .mark s := by
  cases l with
  | spacing text => cases symbol
  | whole digits =>
    rcases symbol?_whole digits with ⟨_, known⟩ | ⟨_, known⟩ <;>
      · rw [known] at symbol
        cases symbol
        simp [marks] at member
  | decimal digits places | name text =>
    cases symbol
    simp [marks] at member
  | mark s' => exact congrArg _ (Option.some.inj symbol)

theorem Lexeme.WellFormed.eq_name (formed : l.WellFormed) {name : String} (symbol : l.symbol? = some (.name name)) :
    l = .name name.toList := by
  cases l with
  | spacing text | decimal digits places => cases symbol
  | whole digits =>
    rcases Lexeme.symbol?_whole digits with ⟨_, known⟩ | ⟨_, known⟩ <;>
      · rw [known] at symbol
        cases symbol
  | name text =>
    cases symbol
    rw [String.toList_ofList]
  | mark s =>
    cases symbol
    simp [Lexeme.WellFormed, marks] at formed

theorem Lexeme.eq_spacing_of_symbol? (none : l.symbol? = none) : ∃ text, l = .spacing text := by
  cases l with
  | spacing text => exact ⟨text, rfl⟩
  | whole digits =>
    rcases symbol?_whole digits with ⟨_, known⟩ | ⟨_, known⟩ <;>
      · rw [known] at none
        cases none
  | decimal digits places | name text | mark s => cases none

theorem Lexeme.WellFormed.isWord_eq_false (formed : l.WellFormed)
    (other : ∀ s ∈ l.symbol?, Token.isOperand ⟨s, position⟩ = false) : ∀ c ∈ l.text, isWord c = false := by
  have operand {s : Symbol} (symbol : l.symbol? = some s) (isOperand : Token.isOperand ⟨s, position⟩ = true) :
      ∀ c ∈ l.text, isWord c = false := by
    rw [other s symbol] at isOperand
    cases isOperand
  cases l with
  | spacing text =>
    intro c member
    cases word : isWord c with
    | false => rfl
    | true =>
      have solid := not_isSpacing word (by decide)
      rw [formed.2 c member] at solid
      cases solid
  | whole digits =>
    rcases Lexeme.symbol?_whole digits with ⟨_, known⟩ | ⟨_, known⟩ <;> exact operand known rfl
  | decimal digits places => exact operand rfl rfl
  | name text => exact operand rfl rfl
  | mark s =>
    have plain : ∀ s ∈ marks, (s.text.toList.all fun c => !isWord c) = true := by decide
    intro c member
    simpa using List.all_eq_true.mp (plain s formed) c member

end Characters

section Places

theorem length_textOf_cons (l : Lexeme) (lexemes : List Lexeme) :
    (textOf (l :: lexemes)).length = l.text.length + (textOf lexemes).length := List.length_append

theorem tokensOf_append (position : Nat) (before behind : List Lexeme) :
    tokensOf position (before ++ behind) =
      tokensOf position before ++ tokensOf (position + (textOf before).length) behind := by
  induction before generalizing position with
  | nil => rfl
  | cons l before ih =>
    rw [List.cons_append, tokensOf, tokensOf, ih, length_textOf_cons, List.append_assoc, Nat.add_assoc]

theorem exists_split_of_tokensOf (split : tokensOf position lexemes = front ++ t :: rest) :
    ∃ before l behind, lexemes = before ++ l :: behind ∧ tokensOf position before = front ∧
      l.symbol? = some t.symbol ∧ t.position = position + (textOf before).length ∧
      tokensOf (t.position + l.text.length) behind = rest := by
  induction lexemes generalizing position front with
  | nil => simp [tokensOf] at split
  | cons l lexemes ih =>
    have later {front' : List Token}
        (split : tokensOf (position + l.text.length) lexemes = front' ++ t :: rest)
        (first : l.symbol?.toList.map (⟨·, position⟩) ++ front' = front) :
        ∃ before l' behind, l :: lexemes = before ++ l' :: behind ∧ tokensOf position before = front ∧
          l'.symbol? = some t.symbol ∧ t.position = position + (textOf before).length ∧
          tokensOf (t.position + l'.text.length) behind = rest := by
      obtain ⟨before, l', behind, rfl, rfl, symbol, place, following⟩ := ih split
      refine ⟨l :: before, l', behind, rfl, first, symbol, ?_, following⟩
      rw [place, length_textOf_cons, Nat.add_assoc]
    rw [tokensOf] at split
    cases symbol : l.symbol? with
    | none =>
      rw [symbol] at split later
      exact later split rfl
    | some s =>
      rw [symbol] at split later
      cases front with
      | nil =>
        obtain ⟨rfl, rfl⟩ := List.cons.inj split
        exact ⟨[], l, lexemes, rfl, rfl, symbol, rfl, rfl⟩
      | cons u front =>
        obtain ⟨rfl, following⟩ := List.cons.inj split
        exact later following rfl

theorem exists_mark_of_tokensOf {p : Nat} (isMark : s ∈ marks)
    (split : tokensOf position lexemes = front ++ ⟨s, p⟩ :: rest) :
    ∃ before behind, lexemes = before ++ .mark s :: behind ∧ tokensOf position before = front ∧
      p = position + (textOf before).length ∧ tokensOf (p + s.text.toList.length) behind = rest := by
  obtain ⟨before, l, behind, rfl, tokens, symbol, place, following⟩ := exists_split_of_tokensOf split
  obtain rfl := Lexeme.eq_mark symbol isMark
  exact ⟨before, behind, rfl, tokens, place, following⟩

theorem isSpacing_of_tokensOf (formed : ∀ l ∈ lexemes, l.WellFormed) (none : tokensOf position lexemes = []) :
    ∀ c ∈ textOf lexemes, isSpacing c = true := by
  induction lexemes generalizing position with
  | nil => exact nofun
  | cons l lexemes ih =>
    obtain ⟨first, others⟩ := List.forall_mem_cons.mp formed
    obtain ⟨here, behind⟩ := List.append_eq_nil_iff.mp none
    have noSymbol : l.symbol? = .none := by simpa using here
    obtain ⟨text, rfl⟩ := Lexeme.eq_spacing_of_symbol? noSymbol
    exact List.forall_mem_append.mpr ⟨first.2, ih others behind⟩

theorem any_isWord_getLast?_textOf (formed : ∀ l ∈ lexemes, l.WellFormed)
    (other : ∀ t ∈ (tokensOf position lexemes).getLast?, t.isOperand = false) :
    (textOf lexemes).getLast?.any isWord = false := by
  rcases List.eq_nil_or_concat lexemes with rfl | ⟨before, l, rfl⟩
  · rfl
  · rw [List.concat_eq_append] at formed other ⊢
    have formed' : l.WellFormed := formed l (by simp)
    have text : textOf (before ++ [l]) = textOf before ++ l.text := by simp [textOf]
    have plain : ∀ c ∈ l.text, isWord c = false := by
      refine formed'.isWord_eq_false fun s symbol => other ⟨s, position + (textOf before).length⟩ ?_
      rw [Option.mem_def] at symbol
      simp [tokensOf_append, tokensOf, symbol]
    have last := List.getLast?_eq_some_getLast formed'.text_ne_nil
    rw [text, List.getLast?_append, last]
    exact plain _ (List.getLast_mem _)

end Places

end Calculator.Token
