namespace Calculator.CommandLine

structure Outcome where
  exit : UInt8
  stdout : String
  stderr : String
deriving DecidableEq, Repr

namespace Outcome

def success (stdout : String) : Outcome := ⟨0, stdout, ""⟩

def failure (message : String) : Outcome := ⟨1, "", message ++ "\n"⟩

def misuse : Outcome := ⟨2, "", ""⟩

end Outcome

end Calculator.CommandLine
