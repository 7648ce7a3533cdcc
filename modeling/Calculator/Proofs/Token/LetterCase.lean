import Calculator.Proofs.Formula.LetterCase
import Calculator.Proofs.Token.Scanning

namespace Calculator

open Text (small small_append takeWhile_small dropWhile_small toLower_eq_iff comp_toLower)
open Formula (NoCapitalRoot noCapitalRoot_cons noCapitalRoot_append)

def Symbol.inSmall : Symbol → Symbol
  | .name text => .name (Text.inSmall text)
  | s => s

def Token.inSmall (t : Token) : Token := { t with symbol := t.symbol.inSmall }

theorem Token.inSmall_inSmall (t : Token) : t.inSmall.inSmall = t.inSmall := by
  obtain ⟨symbol, position⟩ := t
  cases symbol with
  | name text => simp only [inSmall, Symbol.inSmall, Text.inSmall_inSmall]
  | _ => rfl

namespace Token

variable {c : Char} {text rest source : List Char} {position : Nat}

section Small

theorem isSpacing_toLower : isSpacing ∘ Char.toLower = isSpacing := comp_toLower (by decide)

theorem beginsName_toLower : beginsName ∘ Char.toLower = beginsName := comp_toLower (by decide)

theorem continuesName_toLower : continuesName ∘ Char.toLower = continuesName := comp_toLower (by decide)

theorem mark?_toLower : mark? ∘ Char.toLower = mark? := comp_toLower (by decide)

theorem head?_small_eq_iff {d : Char} (other : d.isAlpha = false) :
    (small text).head? = some d ↔ text.head? = some d := by
  rw [List.head?_eq_getElem?, List.head?_eq_getElem?]
  exact Text.getElem?_small_eq_iff other 0

theorem toLower_eq_n_iff : c.toLower = 'n' ↔ c = 'n' ∨ c = 'N' := by
  have known : Text.capitals.all (fun c => decide (c.toLower = 'n' ↔ c = 'n' ∨ c = 'N')) = true := by decide
  cases upper : c.isUpper with
  | true => exact of_decide_eq_true (List.all_eq_true.mp known c (Text.mem_capitals_of_isUpper upper))
  | false =>
    rw [Text.toLower_of_not_isUpper upper]
    refine ⟨.inl, fun either => either.resolve_right ?_⟩
    rintro rfl
    cases upper

theorem longest?_small (plain : NoCapitalRoot text) : longest? (small text) = longest? text := by
  cases text with
  | nil => rfl
  | cons c rest =>
    have spacing : isSpacing c.toLower = isSpacing c := congrFun isSpacing_toLower c
    have digit : c.toLower.isDigit = c.isDigit := congrFun Text.isDigit_toLower c
    have begins : beginsName c.toLower = beginsName c := congrFun beginsName_toLower c
    have mark : mark? c.toLower = mark? c := congrFun mark?_toLower c
    have root : (c.toLower = 'n' ∨ c.toLower = 'ⁿ') ∧ (small rest).head? = some '√' ↔
        (c = 'n' ∨ c = 'ⁿ') ∧ rest.head? = some '√' := by
      have apart := (noCapitalRoot_cons.mp plain).1
      rw [toLower_eq_n_iff, toLower_eq_iff (by decide), head?_small_eq_iff (by decide)]
      tauto
    have star : c.toLower = '*' ∧ (small rest).head? = some '*' ↔ c = '*' ∧ rest.head? = some '*' := by
      rw [toLower_eq_iff (by decide), head?_small_eq_iff (by decide)]
    rw [small, List.map_cons, ← small]
    simp only [longest?, spacing, digit, begins, mark, root, star,
      toLower_eq_iff (show '√'.isAlpha = false by decide), takeWhile_small isSpacing_toLower,
      takeWhile_small Text.isDigit_toLower, takeWhile_small continuesName_toLower,
      dropWhile_small Text.isDigit_toLower, Text.length_small]
    -- behind the digits only a point matters
    cases rest.dropWhile Char.isDigit with
    | nil => rfl
    | cons d places =>
      by_cases point : d = '.'
      · subst point
        have split : small ('.' :: places) = '.' :: small places := rfl
        simp only [split, takeWhile_small Text.isDigit_toLower, Text.length_small]
      · have other : d.toLower ≠ '.' := fun same => point ((toLower_eq_iff (by decide)).mp same)
        simp [small, point, other]

theorem small_literal {digits places : List Char} (formed : Lexeme.WellFormed (.decimal digits places)) :
    small (digits ++ '.' :: places) = digits ++ '.' :: places :=
  Text.small_of_all (p := continuesLiteral) (by decide) (List.all_eq_true.mpr formed.continuesLiteral)

theorem finiteReal_inSmall (text : List Char) :
    (finiteReal text).map (Option.map Symbol.inSmall) = finiteReal text := by
  unfold finiteReal
  split
  · split <;> rfl
  · rfl

theorem symbol_small {l : Lexeme} (formed : l.WellFormed) :
    l.pattern.symbol (small l.text) = (l.pattern.symbol l.text).map (Option.map Symbol.inSmall) := by
  cases l with
  | spacing text => rfl
  | name text => simp [Lexeme.pattern, Lexeme.text, Pattern.symbol, Except.map, Symbol.inSmall, Text.inSmall]
  | mark s =>
    simp only [Lexeme.WellFormed, marks, List.mem_cons, List.not_mem_nil, or_false] at formed
    rcases formed with rfl | rfl | rfl | rfl | rfl | rfl | rfl | rfl | rfl <;> rfl
  | decimal digits places =>
    simp only [Lexeme.pattern, Lexeme.text, Pattern.symbol, small_literal formed, finiteReal_inSmall]
  | whole digits =>
    have numeral : small digits = digits :=
      Text.small_of_all (p := Char.isDigit) (by decide) (List.all_eq_true.mpr formed.2)
    simp only [Lexeme.pattern, Lexeme.text, numeral, Pattern.symbol]
    split
    · rfl
    · exact (finiteReal_inSmall digits).symm

theorem toLower_of_longest?_eq_none (unknown : longest? (c :: rest) = none) : c.toLower = c := by
  cases upper : c.isUpper with
  | false => exact Text.toLower_of_not_isUpper upper
  | true =>
    have begins : beginsName c = true := by simp [beginsName, Char.isAlpha, upper]
    rw [longest?_begins begins] at unknown
    split at unknown <;> cases unknown

theorem symbol_take_small {pattern : Pattern} {length : Nat}
    (found : longest? source = some (pattern, length)) :
    pattern.symbol (small (source.take length)) =
      (pattern.symbol (source.take length)).map (Option.map Symbol.inSmall) := by
  obtain ⟨l, rest, formed, rfl, rfl, rfl⟩ := exists_lexeme_of_longest? found
  rw [List.take_left]
  exact symbol_small formed

theorem scanFrom_small (plain : NoCapitalRoot source) (position : Nat) :
    scanFrom List.length position (small source) =
      (scanFrom List.length position source).map (List.map Token.inSmall) := by
  fun_induction scanFrom List.length position source with
  | case1 position => exact scanFrom_end
  | case2 position source nonempty unknown =>
    obtain ⟨c, rest, rfl⟩ := List.exists_cons_of_ne_nil nonempty
    have same : c.toLower = c := toLower_of_longest?_eq_none unknown
    have unknown' : longest? (small (c :: rest)) = none := by rw [longest?_small plain, unknown]
    have nonempty' : small (c :: rest) ≠ [] := List.cons_ne_nil _ _
    have head : (small (c :: rest)).head nonempty' = c := same
    rw [scanFrom_unknown nonempty' unknown', head]
    rfl
  | case3 position source nonempty pattern length found reason illegible =>
    refine scanFrom_illegible ((longest?_small plain).trans found) ?_
    rw [Text.take_small, symbol_take_small found, illegible]
    rfl
  | case4 position source nonempty pattern length found symbol? known _ ih =>
    have bound : (source.take length).length = length := by
      obtain ⟨l, rest, _, rfl, _, rfl⟩ := exists_lexeme_of_longest? found
      rw [List.take_left]
    have cut : small (source.take length) ++ small (source.drop length) = small source := by
      rw [← small_append, List.take_append_drop]
    have found' : longest? (small (source.take length) ++ small (source.drop length)) =
        some (pattern, (small (source.take length)).length) := by
      rw [cut, longest?_small plain, found, Text.length_small, bound]
    have known' : pattern.symbol (small (source.take length)) = .ok (symbol?.map Symbol.inSmall) := by
      rw [symbol_take_small found, known]
      rfl
    have scans : Scans position (small (source.take length)) (small (source.drop length)) _ :=
      scans_lexeme _ found' known'
    rw [Scans, cut, Text.length_small, ih (plain.drop length)] at scans
    rw [scans]
    cases scanFrom List.length (position + (source.take length).length) (source.drop length) with
    | error e => rfl
    | ok following => cases symbol? <;> rfl

theorem scan_small (plain : NoCapitalRoot source) :
    scan (small source) = (scan source).map (List.map Token.inSmall) := by
  rw [scan_eq, scan_eq, scanFrom_small plain, Text.length_small]
  cases scanFrom List.length 0 source with
  | error e => rfl
  | ok tokens => simp [Except.map, inSmall, Symbol.inSmall]

end Small

section CapitalRoot

def IsName (t : Token) : Prop := ∃ text, t.symbol = .name text

def NamesApart (tokens : List Token) : Prop := tokens.IsChain fun t t' => ¬ (t.IsName ∧ t'.IsName)

variable {l : Lexeme} {lexemes : List Lexeme}

theorem Lexeme.WellFormed.name_or_plain (formed : l.WellFormed) :
    (∃ text, l = .name text) ∨ 'N' ∉ l.text ∧ '√' ∉ l.text := by
  have plain {p : Char → Bool} {text : List Char} (inside : ∀ c ∈ text, p c = true) (letter : p 'N' = false)
      (root : p '√' = false) : 'N' ∉ text ∧ '√' ∉ text :=
    ⟨fun member => by simp [inside 'N' member] at letter, fun member => by simp [inside '√' member] at root⟩
  cases l with
  | name text => exact .inl ⟨text, rfl⟩
  | spacing text => exact .inr (plain formed.2 (by decide) (by decide))
  | whole digits => exact .inr (plain formed.2 (by decide) (by decide))
  | decimal digits places =>
    obtain ⟨noLetter, noRoot⟩ := plain formed.1.2 (by decide) (by decide)
    obtain ⟨noLetter', noRoot'⟩ := plain formed.2 (by decide) (by decide)
    exact .inr ⟨by simp [text, noLetter, noLetter'], by simp [text, noRoot, noRoot']⟩
  | mark s =>
    simp only [Lexeme.WellFormed, marks, List.mem_cons, List.not_mem_nil, or_false] at formed
    rcases formed with rfl | rfl | rfl | rfl | rfl | rfl | rfl | rfl | rfl <;>
      exact .inr (by decide)

theorem noCapitalRoot_of_isName (name : isName text = true) : NoCapitalRoot text := by
  unfold isName at name
  split at name
  · decide
  · decide
  · decide
  · rename_i c tail _ _ _
    obtain ⟨begins, continued⟩ := Bool.and_eq_true_iff.mp name
    refine Formula.noCapitalRoot_of_no_root fun member => ?_
    rcases List.mem_cons.mp member with rfl | member
    · exact absurd begins (by decide)
    · exact absurd (List.all_eq_true.mp continued '√' member) (by decide)
  · cases name

theorem Lexeme.WellFormed.noCapitalRoot (formed : l.WellFormed) : NoCapitalRoot l.text := by
  rcases formed.name_or_plain with ⟨text, rfl⟩ | ⟨_, noRoot⟩
  · exact noCapitalRoot_of_isName formed
  · exact Formula.noCapitalRoot_of_no_root noRoot

theorem noCapitalRoot_of_tokensOf (formed : ∀ l ∈ lexemes, l.WellFormed)
    (apart : NamesApart (tokensOf position lexemes)) : NoCapitalRoot (textOf lexemes) := by
  induction lexemes generalizing position with
  | nil => exact .nil
  | cons l lexemes ih =>
    obtain ⟨first, others⟩ := List.forall_mem_cons.mp formed
    refine noCapitalRoot_append.mpr ⟨first.noCapitalRoot, ih others apart.right_of_append, ?_⟩
    rintro ⟨last, head⟩
    -- the letter ends one name and the sign begins the next
    have letter : 'N' ∈ l.text := List.mem_of_getLast? last
    obtain ⟨text, rfl⟩ := first.name_or_plain.resolve_right fun plain => plain.1 letter
    cases lexemes with
    | nil => cases head
    | cons l' lexemes =>
      have second : l'.WellFormed := others l' List.mem_cons_self
      have root : '√' ∈ l'.text := by
        obtain ⟨c, tail, same⟩ := List.exists_cons_of_ne_nil second.text_ne_nil
        have begins : (l'.text ++ textOf lexemes).head? = some '√' := head
        rw [same] at begins
        rw [same, ← Option.some.inj begins]
        exact List.mem_cons_self
      obtain ⟨text', rfl⟩ := second.name_or_plain.resolve_right fun plain => plain.2 root
      exact (List.isChain_cons.mp apart).1 _ rfl ⟨⟨_, rfl⟩, ⟨_, rfl⟩⟩

theorem noCapitalRoot_of_scan {tokens : List Token} (scans : scan source = .ok tokens)
    (apart : NamesApart (tokens.takeWhile fun t => t.symbol ≠ .done)) : NoCapitalRoot source := by
  obtain ⟨lexemes, cut, finite, split, rfl⟩ := exists_cut_of_scan scans
  have before : ∀ t ∈ tokensOf 0 lexemes, t.symbol ≠ .done := ne_done_of_mem_tokensOf cut.wellFormed
  rw [List.takeWhile_append_of_pos (by simpa using before)] at apart
  rw [split]
  exact noCapitalRoot_of_tokensOf cut.wellFormed apart.left_of_append

end CapitalRoot

end Token

end Calculator
