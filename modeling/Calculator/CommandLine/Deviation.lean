import Calculator.CommandLine.Outcome
import Calculator.Sample
import Calculator.Decimal.Reader
import Calculator.Decimal.Text
import Calculator.Text.Lines

namespace Calculator.CommandLine

def deviationOf (values : List Float) : Outcome :=
  match Sample.standardDeviation values with
  | .ok deviation => .success (String.ofList (Decimal.showReal deviation) ++ "\n")
  | .error e => .failure e.message

def deviation (standardInput : List UInt8) : Outcome :=
  match Text.decode? standardInput with
  | none => .failure "Failed to read standard input: stream did not contain valid UTF-8"
  | some text =>
    match (Text.words text).mapM Decimal.readReal? with
    | none => .failure "Invalid input: invalid float literal"
    | some values => deviationOf values

end Calculator.CommandLine
