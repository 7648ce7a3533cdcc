import Calculator.Token.Basic

namespace Calculator

inductive ParseError.Reason where
  | unexpectedCharacter (c : Char)
  | literalTooLarge
  | unexpectedToken (found : Symbol)
  | unexpectedInArguments (found : Symbol)
  | unexpectedEnd
  | expectedClosingParen
  | unknownName (name : String)
  | tooManyArguments (name : String)
  | trailingTokens (found : Symbol)
  | nestingTooDeep
  | tooManyOperators
deriving DecidableEq, Repr

structure ParseError where
  reason : ParseError.Reason
  position : Nat
deriving DecidableEq, Repr

namespace ParseError

def Reason.text : Reason → String
  | .unexpectedCharacter c => s!"Unexpected character: {String.singleton c}."
  | .literalTooLarge => "Literal is too large."
  | .unexpectedToken found => s!"Unexpected token: {found.text}."
  | .unexpectedInArguments found => s!"Unexpected token: expected ',' or ')', found '{found.text}'."
  | .unexpectedEnd => "Unexpected end of input."
  | .expectedClosingParen => "Expected closing parenthesis ')' but none found."
  | .unknownName name => s!"Unknown identifier '{name}'."
  | .tooManyArguments name => s!"'{name}' takes at most two arguments."
  | .trailingTokens found => s!"Extra tokens after expression. Check your input: {found.text}"
  | .nestingTooDeep => "Expression is nested too deeply."
  | .tooManyOperators => "Formula has too many operators."

def message (e : ParseError) : String := s!"Error at {e.position}: {e.reason.text}"

end ParseError

end Calculator
