import Calculator.Proofs.Token.Lexeme

namespace Calculator.Token

open Text (leaves_nil leaves_dropWhile takeWhile_run dropWhile_run)

inductive Lexeme where
  | spacing (text : List Char)
  | whole (digits : List Char)
  | decimal (digits places : List Char)
  | name (text : List Char)
  | mark (s : Symbol)
deriving DecidableEq, Repr

def marks : List Symbol :=
  [.plus, .minus, .star, .slash, .caret, .doubleStar, .openParen, .closeParen, .comma]

def IsRun (p : Char → Bool) (text : List Char) : Prop := text ≠ [] ∧ ∀ c ∈ text, p c = true

namespace Lexeme

def text : Lexeme → List Char
  | .spacing text => text
  | .whole digits => digits
  | .decimal digits places => digits ++ '.' :: places
  | .name text => text
  | .mark s => s.text.toList

def pattern : Lexeme → Pattern
  | .spacing _ => .spacing
  | .whole _ => .whole
  | .decimal _ _ => .decimal
  | .name _ => .name
  | .mark s => .mark s

def WellFormed : Lexeme → Prop
  | .spacing text => IsRun isSpacing text
  | .whole digits => IsRun Char.isDigit digits
  | .decimal digits places => IsRun Char.isDigit digits ∧ ∀ c ∈ places, c.isDigit = true
  | .name text => isName text = true
  | .mark s => s ∈ marks

theorem WellFormed.continuesLiteral {digits places : List Char} (formed : WellFormed (.decimal digits places)) :
    ∀ c ∈ digits ++ '.' :: places, Token.continuesLiteral c = true := by
  intro c member
  rcases List.mem_append.mp member with digit | member
  · simp [Token.continuesLiteral, formed.1.2 c digit]
  · rcases List.mem_cons.mp member with rfl | digit
    · rfl
    · simp [Token.continuesLiteral, formed.2 c digit]

end Lexeme

/-- The lexeme stands at the front of a text, and no longer one does. -/
structure Leads (l : Lexeme) (source : List Char) : Prop where
  wellFormed : l.WellFormed
  isPrefix : l.text <+: source
  longest : ∀ other : Lexeme, other.WellFormed → other.text <+: source → other.text.length ≤ l.text.length

variable {c : Char} {s : Symbol} {rest text : List Char}

theorem longest?_spacing (run : IsRun isSpacing text) :
    longest? (text ++ rest) = some (.spacing, text.length + (rest.takeWhile isSpacing).length) := by
  obtain ⟨nonempty, inside⟩ := run
  obtain ⟨c, blanks, rfl⟩ := List.exists_cons_of_ne_nil nonempty
  have more : ∀ d ∈ blanks, isSpacing d = true := fun d member => inside d (by simp [member])
  simp only [List.cons_append, longest?, inside c (by simp), List.takeWhile_append_of_pos more,
    List.length_append, List.length_cons, if_true]
  rw [Nat.add_right_comm]

theorem longest?_point {whole : List Char} (run : IsRun Char.isDigit whole) :
    longest? (whole ++ '.' :: rest) =
      some (.decimal, whole.length + (rest.takeWhile Char.isDigit).length + 1) := by
  obtain ⟨nonempty, inside⟩ := run
  obtain ⟨c, digits, rfl⟩ := List.exists_cons_of_ne_nil nonempty
  have digit : c.isDigit = true := inside c (by simp)
  have digitsInside : ∀ d ∈ digits, d.isDigit = true := fun d member => inside d (by simp [member])
  have point : Text.Leaves Char.isDigit ('.' :: rest) := Text.leaves_cons.mpr rfl
  have spacing : isSpacing c = false := not_isSpacing digit (by decide)
  simp only [List.cons_append, longest?, spacing, digit, takeWhile_run digitsInside point,
    dropWhile_run digitsInside point, List.length_cons]
  rfl

theorem longest?_begins (begins : beginsName c = true) : longest? (c :: rest) =
    if c = 'n' ∧ rest.head? = some '√' then some (.name, 2)
    else some (.name, (rest.takeWhile continuesName).length + 1) := by
  obtain ⟨spacing, digit, root⟩ := beginsName_plain begins
  have power : c ≠ 'ⁿ' := by
    rintro rfl
    exact absurd begins (by decide)
  simp [longest?, spacing, digit, root, power, begins]

theorem mark?_eq_some (mark : mark? c = some s) : s ∈ marks ∧ s.text.toList = [c] := by
  unfold mark? at mark
  split at mark
  case h_9 => cases mark
  all_goals
    cases mark
    exact ⟨by decide, by decide⟩

theorem isName_of_begins (begins : beginsName c = true) (continued : ∀ d ∈ rest, continuesName d = true) :
    isName (c :: rest) = true := by
  unfold isName
  split
  · rfl
  · rfl
  · rfl
  · rename_i same
    cases same
    rw [begins, List.all_eq_true.mpr continued]
    rfl
  · rename_i same
    cases same

def Finds (source : List Char) (least : Nat) : Prop :=
  ∃ pattern length, longest? source = some (pattern, length) ∧ least ≤ length

theorem length_le_takeWhile {p : Char → Bool} {run : List Char} (rest : List Char)
    (inside : ∀ c ∈ run, p c = true) : run.length ≤ ((run ++ rest).takeWhile p).length := by
  rw [List.takeWhile_append_of_pos inside, List.length_append]
  exact Nat.le_add_right _ _

theorem finds_digits {digits : List Char} (run : IsRun Char.isDigit digits) :
    Finds (digits ++ rest) digits.length := by
  obtain ⟨nonempty, inside⟩ := run
  have longer : IsRun Char.isDigit (digits ++ rest.takeWhile Char.isDigit) := by
    refine ⟨by simp [nonempty], fun c member => ?_⟩
    rcases List.mem_append.mp member with member | member
    · exact inside c member
    · exact List.all_eq_true.mp List.all_takeWhile c member
  have split : digits ++ rest = (digits ++ rest.takeWhile Char.isDigit) ++ rest.dropWhile Char.isDigit := by
    rw [List.append_assoc, List.takeWhile_append_dropWhile]
  have ends : Text.Leaves Char.isDigit (rest.dropWhile Char.isDigit) := leaves_dropWhile
  unfold Finds
  rw [split]
  -- behind all the digits a point makes a decimal
  by_cases point : (rest.dropWhile Char.isDigit).head? = some '.'
  · obtain ⟨places, after⟩ := List.head?_eq_some_iff.mp point
    rw [after, longest?_point longer]
    exact ⟨_, _, rfl, by simp; omega⟩
  · have leaves : Text.Leaves continuesLiteral (rest.dropWhile Char.isDigit) := by
      intro c first
      have notPoint : c ≠ '.' := by
        rintro rfl
        exact point first
      simp [continuesLiteral, ends c first, notPoint]
    rw [longest?_digits longer.1 longer.2 leaves]
    exact ⟨_, _, rfl, by simp⟩

theorem finds_name (name : isName text = true) : Finds (text ++ rest) text.length := by
  unfold isName at name
  split at name
  · exact ⟨.name, 1, rfl, Nat.le_refl _⟩
  · exact ⟨.name, 2, rfl, Nat.le_refl _⟩
  · exact ⟨.name, 2, rfl, Nat.le_refl _⟩
  · rename_i c tail _ _ _
    obtain ⟨begins, continued⟩ := Bool.and_eq_true_iff.mp name
    have inside := List.all_eq_true.mp continued
    rw [Finds, List.cons_append, longest?_begins begins]
    split
    · rename_i root
      refine ⟨_, _, rfl, ?_⟩
      cases tail with
      | nil => exact Nat.le_succ 1
      | cons d tail =>
        have next : d = '√' := Option.some.inj root.2
        subst next
        exact absurd (inside '√' (by simp)) (by decide)
    · exact ⟨_, _, rfl, Nat.succ_le_succ (length_le_takeWhile rest inside)⟩
  · cases name

theorem finds_mark (member : s ∈ marks) : Finds (s.text.toList ++ rest) s.text.toList.length := by
  simp only [marks, List.mem_cons, List.not_mem_nil, or_false] at member
  rcases member with rfl | rfl | rfl | rfl | rfl | rfl | rfl | rfl | rfl
  case inr.inr.inl =>
    -- a second star makes the longer mark
    cases rest with
    | nil => exact ⟨_, _, rfl, by decide⟩
    | cons d rest =>
      by_cases star : d = '*'
      · subst star
        exact ⟨_, _, rfl, by decide⟩
      · refine ⟨.mark .star, 1, ?_, by decide⟩
        obtain ⟨spacing, digit, _, _, _, begins⟩ := mark?_plain (show mark? '*' = some .star from rfl)
        simp [longest?, star, Symbol.text, spacing, digit, begins, mark?]
  all_goals exact ⟨_, _, rfl, by decide⟩

theorem finds_text {l : Lexeme} (rest : List Char) (wellFormed : l.WellFormed) :
    Finds (l.text ++ rest) l.text.length := by
  cases l with
  | spacing text => exact ⟨_, _, longest?_spacing wellFormed, Nat.le_add_right _ _⟩
  | whole digits => exact finds_digits wellFormed
  | decimal digits places =>
    have longer := length_le_takeWhile rest wellFormed.2
    rw [Finds, Lexeme.text, List.append_assoc, List.cons_append, longest?_point wellFormed.1]
    refine ⟨_, _, rfl, ?_⟩
    rw [List.length_append, List.length_cons]
    omega
  | name text => exact finds_name wellFormed
  | mark s => exact finds_mark wellFormed

theorem longest?_text {l : Lexeme} (wellFormed : l.WellFormed) :
    longest? (l.text ++ []) = some (l.pattern, l.text.length) := by
  cases l with
  | spacing text => exact longest?_spacing wellFormed
  | whole digits => exact longest?_digits wellFormed.1 wellFormed.2 (leaves_nil _)
  | decimal digits places =>
    have length : digits.length + places.length + 1 = (digits ++ '.' :: places).length := by
      rw [List.length_append, List.length_cons, Nat.add_assoc]
    rw [Lexeme.text, List.append_assoc, List.cons_append, longest?_point wellFormed.1,
      takeWhile_run wellFormed.2 (leaves_nil _), length]
    rfl
  | name text => exact longest?_name wellFormed (leaves_nil _)
  | mark s =>
    simp only [Lexeme.WellFormed, marks, List.mem_cons, List.not_mem_nil, or_false] at wellFormed
    rcases wellFormed with rfl | rfl | rfl | rfl | rfl | rfl | rfl | rfl | rfl <;> rfl

theorem Lexeme.WellFormed.text_ne_nil {l : Lexeme} (formed : l.WellFormed) : l.text ≠ [] :=
  List.length_pos_iff.mp (longest?_pos (longest?_text formed))

theorem isRun_takeWhile {p : Char → Bool} (first : p c = true) : IsRun p (c :: rest.takeWhile p) :=
  ⟨by simp, Text.forall_mem_firstRun first⟩

theorem exists_lexeme_of_longest? {source : List Char} {pattern : Pattern} {length : Nat}
    (found : longest? source = some (pattern, length)) :
    ∃ (l : Lexeme) (rest : List Char), l.WellFormed ∧ source = l.text ++ rest ∧ l.pattern = pattern ∧
      l.text.length = length := by
  revert found
  fun_cases longest? source with
  | case1 => exact nofun
  | case2 c rest spacing =>
    rintro ⟨⟩
    exact ⟨.spacing (c :: rest.takeWhile isSpacing), rest.dropWhile isSpacing, isRun_takeWhile spacing,
      by simp [Lexeme.text], rfl, by simp [Lexeme.text]⟩
  | case3 c rest spacing digit digits places point =>
    rintro ⟨⟩
    refine ⟨.decimal (c :: rest.takeWhile Char.isDigit) (places.takeWhile Char.isDigit),
      places.dropWhile Char.isDigit, ⟨isRun_takeWhile digit, ?_⟩, ?_, rfl, ?_⟩
    · exact List.all_eq_true.mp List.all_takeWhile
    · simp [Lexeme.text, ← point]
    · simp [Lexeme.text, digits]
      omega
  | case4 c rest spacing digit digits noPoint =>
    intro found
    obtain ⟨rfl, rfl⟩ := Prod.mk.inj (Option.some.inj found)
    exact ⟨.whole (c :: rest.takeWhile Char.isDigit), rest.dropWhile Char.isDigit, isRun_takeWhile digit,
      by simp [Lexeme.text], rfl, rfl⟩
  | case5 rest spacing digit =>
    rintro ⟨⟩
    exact ⟨.name ['√'], rest, rfl, rfl, rfl, rfl⟩
  | case6 c rest spacing digit root power =>
    rintro ⟨⟩
    obtain ⟨degree, head⟩ := power
    obtain ⟨tail, rfl⟩ := List.head?_eq_some_iff.mp head
    rcases degree with rfl | rfl
    · exact ⟨.name ['n', '√'], tail, rfl, rfl, rfl, rfl⟩
    · exact ⟨.name ['ⁿ', '√'], tail, rfl, rfl, rfl, rfl⟩
  | case7 c rest spacing digit root power begins =>
    rintro ⟨⟩
    have continued : ∀ d ∈ rest.takeWhile continuesName, continuesName d = true :=
      List.all_eq_true.mp List.all_takeWhile
    exact ⟨.name (c :: rest.takeWhile continuesName), rest.dropWhile continuesName,
      isName_of_begins begins continued, by simp [Lexeme.text], rfl, by simp [Lexeme.text]⟩
  | case8 c rest spacing digit root power begins double =>
    rintro ⟨⟩
    obtain ⟨rfl, head⟩ := double
    obtain ⟨tail, rfl⟩ := List.head?_eq_some_iff.mp head
    exact ⟨.mark .doubleStar, tail, by simp [Lexeme.WellFormed, marks], rfl, rfl, rfl⟩
  | case9 c rest spacing digit root power begins double s mark =>
    rintro ⟨⟩
    obtain ⟨member, shown⟩ := mark?_eq_some mark
    exact ⟨.mark s, rest, member, by simp [Lexeme.text, shown], rfl, by simp [Lexeme.text, shown]⟩
  | case10 => exact nofun

theorem leads_of_longest? {l : Lexeme} (wellFormed : l.WellFormed)
    (found : longest? (l.text ++ rest) = some (l.pattern, l.text.length)) : Leads l (l.text ++ rest) where
  wellFormed := wellFormed
  isPrefix := List.prefix_append _ _
  longest := by
    intro other otherFormed isPrefix
    obtain ⟨after, same⟩ := isPrefix
    obtain ⟨pattern, length, otherFound, longer⟩ := finds_text after otherFormed
    rw [same, found] at otherFound
    cases otherFound
    exact longer

theorem Lexeme.eq_of_text_eq {l m : Lexeme} (lFormed : l.WellFormed) (mFormed : m.WellFormed)
    (same : l.text = m.text) : l = m := by
  -- the scanner gives one text one pattern
  have pattern : l.pattern = m.pattern := by
    have found := longest?_text lFormed
    rw [same, longest?_text mFormed] at found
    exact (congrArg Prod.fst (Option.some.inj found)).symm
  cases l <;> cases m <;> cases pattern
  case spacing.spacing.refl => exact congrArg _ same
  case whole.whole.refl => exact congrArg _ same
  case name.name.refl => exact congrArg _ same
  case mark.mark.refl => rfl
  case decimal.decimal.refl digits places digits' places' =>
    have point {places : List Char} : Text.Leaves Char.isDigit ('.' :: places) := Text.leaves_cons.mpr rfl
    have before := congrArg (List.takeWhile Char.isDigit) same
    have after := congrArg (List.dropWhile Char.isDigit) same
    simp only [text, takeWhile_run lFormed.1.2 point, takeWhile_run mFormed.1.2 point] at before
    simp only [text, dropWhile_run lFormed.1.2 point, dropWhile_run mFormed.1.2 point] at after
    cases before
    cases after
    rfl

theorem Leads.unique {l m : Lexeme} {source : List Char} (lLeads : Leads l source)
    (mLeads : Leads m source) : l = m := by
  have length : l.text.length = m.text.length :=
    Nat.le_antisymm (mLeads.longest l lLeads.wellFormed lLeads.isPrefix)
      (lLeads.longest m mLeads.wellFormed mLeads.isPrefix)
  have lText := List.prefix_iff_eq_take.mp lLeads.isPrefix
  rw [length, ← List.prefix_iff_eq_take.mp mLeads.isPrefix] at lText
  exact Lexeme.eq_of_text_eq lLeads.wellFormed mLeads.wellFormed lText

/-- The scanner takes the longest lexeme a text begins with. -/
theorem longest?_of_leads {l : Lexeme} {source : List Char} (leads : Leads l source) :
    longest? source = some (l.pattern, l.text.length) := by
  obtain ⟨rest, same⟩ := leads.isPrefix
  obtain ⟨pattern, length, found, _⟩ := finds_text rest leads.wellFormed
  rw [same] at found
  obtain ⟨m, after, formed, rfl, rfl, rfl⟩ := exists_lexeme_of_longest? found
  rw [leads.unique (leads_of_longest? formed found), found]

theorem exists_leads_or_unknown (source : List Char) :
    (∃ l, Leads l source) ∨ longest? source = none ∧ ∀ l : Lexeme, l.WellFormed → ¬ l.text <+: source := by
  cases found : longest? source with
  | some choice =>
    obtain ⟨pattern, length⟩ := choice
    obtain ⟨l, rest, formed, rfl, rfl, rfl⟩ := exists_lexeme_of_longest? found
    exact .inl ⟨l, leads_of_longest? formed found⟩
  | none =>
    refine .inr ⟨rfl, fun l formed isPrefix => ?_⟩
    obtain ⟨rest, same⟩ := isPrefix
    obtain ⟨pattern, length, known, _⟩ := finds_text rest formed
    rw [same, found] at known
    cases known

end Calculator.Token
