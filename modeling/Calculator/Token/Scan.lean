import Calculator.ParseError

namespace Calculator.Token

def isSpacing (c : Char) : Bool := c == ' ' || c == '\t' || c == '\x0c' || c == '\r' || c == '\n'

def beginsName (c : Char) : Bool := c.isAlpha || c == '_' || c == 'π'

def continuesName (c : Char) : Bool := beginsName c || c.isDigit

inductive Pattern where
  | spacing
  | whole
  | decimal
  | name
  | mark (s : Symbol)
deriving DecidableEq, Repr

def mark? : Char → Option Symbol
  | '+' => some .plus
  | '-' => some .minus
  | '*' => some .star
  | '/' => some .slash
  | '^' => some .caret
  | '(' => some .openParen
  | ')' => some .closeParen
  | ',' => some .comma
  | _ => none

/-- The kind of the longest lexeme a text begins with, and its length. -/
def longest? : List Char → Option (Pattern × Nat)
  | [] => none
  | c :: rest =>
    if isSpacing c then some (.spacing, (rest.takeWhile isSpacing).length + 1)
    else if c.isDigit then
      let digits := (rest.takeWhile Char.isDigit).length + 1
      match rest.dropWhile Char.isDigit with
      | '.' :: places => some (.decimal, digits + (places.takeWhile Char.isDigit).length + 1)
      | _ => some (.whole, digits)
    else if c = '√' then some (.name, 1)
    else if (c = 'n' ∨ c = 'ⁿ') ∧ rest.head? = some '√' then some (.name, 2)
    else if beginsName c then some (.name, (rest.takeWhile continuesName).length + 1)
    else if c = '*' ∧ rest.head? = some '*' then some (.mark .doubleStar, 2)
    else
      match mark? c with
      | some s => some (.mark s, 1)
      | none => none

theorem longest?_pos {source : List Char} {pattern : Pattern} {length : Nat}
    (h : longest? source = some (pattern, length)) : 0 < length := by
  cases source with
  | nil => cases h
  | cons c rest =>
    simp only [longest?] at h
    grind

def finiteReal (text : List Char) : Except ParseError.Reason (Option Symbol) :=
  match Decimal.readReal? text with
  | some x => if x.isFinite then .ok (some (.real x)) else .error .literalTooLarge
  | none => .error .literalTooLarge

/-- The symbol of a lexeme. A whole literal past 64 bits becomes a real. -/
def Pattern.symbol (pattern : Pattern) (text : List Char) : Except ParseError.Reason (Option Symbol) :=
  match pattern with
  | .spacing => .ok none
  | .whole =>
    match Decimal.readWhole? text with
    | some n => .ok (some (.integer n))
    | none => finiteReal text
  | .decimal => finiteReal text
  | .name => .ok (some (.name (String.ofList text)))
  | .mark s => .ok (some s)

/-- The tokens of the lexemes of a text, each where the lexeme begins, which `size` measures. -/
def scanFrom (size : List Char → Nat) (offset : Nat) (source : List Char) : Except ParseError (List Token) :=
  if nonempty : source = [] then .ok []
  else
    match found : longest? source with
    | none => .error ⟨.unexpectedCharacter (source.head nonempty), offset⟩
    | some (pattern, length) =>
      match pattern.symbol (source.take length) with
      | .error reason => .error ⟨reason, offset⟩
      | .ok symbol? =>
        have := longest?_pos found
        (scanFrom size (offset + size (source.take length)) (source.drop length)).map fun following =>
          match symbol? with
          | some s => ⟨s, offset⟩ :: following
          | none => following
termination_by source.length
decreasing_by
  have := List.length_pos_iff.mpr nonempty
  simp only [List.length_drop]
  omega

def byteSize : List Char → Nat
  | [] => 0
  | c :: rest => c.utf8Size + byteSize rest

/-- The text up to a byte, unless that byte is inside a character or past the end. -/
def frontOfBytes? (source : List Char) (bytes : Nat) : Option (List Char) :=
  if bytes = 0 then some []
  else
    match source with
    | [] => none
    | c :: rest =>
      if c.utf8Size ≤ bytes then (frontOfBytes? rest (bytes - c.utf8Size)).map (c :: ·) else none

def charOffset (source : List Char) (byte : Nat) : Nat := (frontOfBytes? source byte).elim byte List.length

def atOffsets (place : Nat → Nat) : Except ParseError (List Token) → Except ParseError (List Token)
  | .ok tokens => .ok (tokens.map fun t => ⟨t.symbol, place t.position⟩)
  | .error e => .error ⟨e.reason, place e.position⟩

/-- Lexemes are found at bytes, and their tokens are placed at characters. -/
def scan (source : List Char) : Except ParseError (List Token) :=
  (atOffsets (charOffset source) (scanFrom byteSize 0 source)).map (· ++ [⟨.done, source.length⟩])

end Calculator.Token
