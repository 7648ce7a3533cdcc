import Calculator.DomainError

namespace Calculator

inductive EvalError.Reason where
  | unknownFunction (name : String)
  | argumentCount (name : String) (expected found : Nat)
  | domain (e : DomainError)
  | expectedInteger
  | overflow
deriving DecidableEq, Repr

structure EvalError where
  reason : EvalError.Reason
  position : Nat
deriving DecidableEq, Repr

namespace EvalError

def Reason.text : Reason → String
  | .unknownFunction name => s!"Unknown function '{name}'."
  | .argumentCount name expected found =>
    s!"'{name}' takes {expected} argument(s), but {found} were given."
  | .domain e => e.message
  | .expectedInteger => "Expected an integer."
  | .overflow => "Result is too large to be represented."

def message (e : EvalError) : String := s!"Error at {e.position}: {e.reason.text}"

def ofDomain (position : Nat) : DomainError → EvalError
  | .overflow => ⟨.overflow, position⟩
  | e => ⟨.domain e, position⟩

end EvalError

end Calculator
