namespace Calculator

inductive DomainError where
  | divisionByZero
  | negativeFactorial
  | fractionalFactorial
  | negativeSquareRoot
  | evenRootOfNegative
  | nonPositiveLogarithm
  | invalidLogarithmBase
  | undefinedTangent
  | undefinedCotangent
  | complexResult
  | overflow
  | insufficientData
deriving DecidableEq, Repr

def DomainError.message : DomainError → String
  | .divisionByZero => "Division by zero."
  | .negativeFactorial => "Factorial is not defined for negative numbers."
  | .fractionalFactorial => "Factorial is only defined for whole numbers."
  | .negativeSquareRoot => "Square root is not defined for negative numbers."
  | .evenRootOfNegative => "Even root is not defined for negative numbers."
  | .nonPositiveLogarithm => "Logarithm is only defined for positive numbers."
  | .invalidLogarithmBase => "Logarithm base must be positive and different from one."
  | .undefinedTangent => "Tangent is undefined where cosine is zero."
  | .undefinedCotangent => "Cotangent is undefined where sine is zero."
  | .complexResult => "A negative base with a fractional exponent has no real result."
  | .overflow => "Result is not a finite number."
  | .insufficientData => "Not enough samples."

end Calculator
