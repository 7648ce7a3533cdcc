import Calculator.CommandLine.Deviation
import Calculator.CommandLine.Formulas

namespace Calculator

def report (outcome : CommandLine.Outcome) : IO UInt32 := do
  IO.print outcome.stdout
  IO.eprint outcome.stderr
  return outcome.exit.toUInt32

def readStandardInput : IO (List UInt8) := do
  let stdin ← IO.getStdin
  let bytes ← stdin.readBinToEnd
  return bytes.toList

def readFile (path : String) : IO (Option (List UInt8)) := do
  try
    let bytes ← IO.FS.readBinFile path
    return some bytes.toList
  catch _ => return none

def deviationMain : IO UInt32 := do
  report (CommandLine.deviation (← readStandardInput))

end Calculator

open Calculator in
def main (arguments : List String) : IO UInt32 := do
  match CommandLine.Arguments.read? arguments with
  | none => report .misuse
  | some a =>
    match a.source with
    | .given formula => report (a.answer [formula.toList])
    | .file path => report (a.answerFile path (← readFile path))
    | .standardInput => report (a.answer (Text.readableLines (← readStandardInput)))
