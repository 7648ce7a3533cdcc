import Calculator.Text.Fold
import Calculator.Text.Word

namespace Calculator.Formula

/-- Stands for a separating comma while the other commas become points. No formula may contain it. -/
def separatorMark : Char := '\uE000'

def namesWithSeparator : List (List Char) :=
  [['l', 'o', 'g'], ['n', 't', 'h', 'r', 'o', 'o', 't'], ['n', '√'], ['ⁿ', '√']]

def endsArgument (c : Char) : Bool := c == ',' || c == '(' || c == ')'

def nameLength? (text : List Char) : Option Nat :=
  (namesWithSeparator.find? fun name => name.isPrefixOf (Text.fold (text.take name.length))).map List.length

def argumentLength (text : List Char) : Nat := (text.takeWhile fun c => !endsArgument c).length

/-- How many characters stand before the separating comma of a call that begins a text. -/
def separatorOffset? (text : List Char) : Option Nat := do
  let name ← nameLength? text
  let first := argumentLength (text.drop (name + 1))
  let comma := name + 1 + first
  let second := argumentLength (text.drop (comma + 1))
  if text[name]? = some '(' ∧ 0 < first ∧ text[comma]? = some ',' ∧ 0 < second ∧
      text[comma + 1 + second]? = some ')' then some comma
  else none

def markFrom (before : Option Char) (text : List Char) : List Char :=
  match text with
  | [] => []
  | c :: rest =>
    let offset := if before.any Text.isWord then none else separatorOffset? (c :: rest)
    match offset with
    | some comma =>
      (c :: rest).take comma ++ separatorMark :: markFrom (some separatorMark) (rest.drop comma)
    | none => c :: markFrom (some c) rest
termination_by text.length
decreasing_by
  all_goals
    simp only [List.length_cons, List.length_drop]
    omega

def markSeparators (formula : List Char) : List Char := markFrom none formula

def pointFrom (before : Option Char) : List Char → List Char
  | [] => []
  | c :: rest =>
    (if c = ',' ∧ before.any Char.isDigit ∧ rest.head?.any Char.isDigit then '.' else c)
      :: pointFrom (some c) rest

def unmark (c : Char) : Char := if c = separatorMark then ',' else c

def decimalCommasToPoints (formula : List Char) : List Char :=
  (pointFrom none (markSeparators formula)).map unmark

end Calculator.Formula
