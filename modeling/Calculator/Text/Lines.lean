import Calculator.Text.Pieces

namespace Calculator.Text

def withoutReturn (line : List Char) : List Char :=
  if line.getLast? = some '\r' then line.dropLast else line

def linesOfPieces (cut : List (List Char)) : List (List Char) :=
  cut.dropLast.map withoutReturn ++ cut.getLast?.toList.filter (· ≠ [])

def lines (text : List Char) : List (List Char) := linesOfPieces (pieces (· == '\n') text)

def decode? (bytes : List UInt8) : Option (List Char) :=
  (String.fromUTF8? ⟨bytes.toArray⟩).map String.toList

def decodedPieces : List (List UInt8) → List (List Char)
  | [] => []
  | piece :: rest =>
    match decode? piece with
    | some text => text :: decodedPieces rest
    | none => [[]]

def readableLines (bytes : List UInt8) : List (List Char) :=
  linesOfPieces (decodedPieces (pieces (· == 10) bytes))

end Calculator.Text
