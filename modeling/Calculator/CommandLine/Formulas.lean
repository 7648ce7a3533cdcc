import Calculator.CommandLine.Arguments
import Calculator.CommandLine.Outcome
import Calculator.Session
import Calculator.Text.Lines

namespace Calculator.CommandLine

inductive Source where
  | given (formula : String)
  | file (path : String)
  | standardInput
deriving DecidableEq, Repr

def Arguments.source (a : Arguments) : Source :=
  match a.contents?, a.fromFile with
  | some path, true => .file path
  | some formula, false => .given formula
  | none, _ => .standardInput

def isBlankLine (line : List Char) : Bool := line.all Text.isBlank

def Arguments.formulas (a : Arguments) (lines : List (List Char)) : List Session.Line :=
  (lines.filter fun line => !isBlankLine line).map fun line =>
    ⟨String.ofList line, a.base?.getD .decimal⟩

def Arguments.answer (a : Arguments) (lines : List (List Char)) : Outcome :=
  let (outcomes, _) := Session.run (a.last?.getD default) (a.formulas lines)
  .success (String.join (outcomes.map fun outcome => Answer.textOf outcome ++ "\n"))

def unreadableFile (path : String) : Outcome :=
  .failure s!"Failed to read the input file '{path}'. Perhaps this file does not exist?"

def Arguments.answerFile (a : Arguments) (path : String) (bytes? : Option (List UInt8)) : Outcome :=
  match bytes?.bind Text.decode? with
  | some text => a.answer (Text.lines text)
  | none => unreadableFile path

/-- The program, given its standard input and the bytes of the files there are. -/
def run (arguments : List String) (standardInput : List UInt8) (file? : String → Option (List UInt8)) :
    Outcome :=
  match Arguments.read? arguments with
  | none => .misuse
  | some a =>
    match a.source with
    | .given formula => a.answer [formula.toList]
    | .file path => a.answerFile path (file? path)
    | .standardInput => a.answer (Text.readableLines standardInput)

end Calculator.CommandLine
