namespace Calculator.Text

def firstPiece {α : Type} (isSeparator : α → Bool) : List α → List α × List (List α)
  | [] => ([], [])
  | c :: rest =>
    let (piece, more) := firstPiece isSeparator rest
    if isSeparator c then ([], piece :: more) else (c :: piece, more)

def pieces {α : Type} (isSeparator : α → Bool) (sequence : List α) : List (List α) :=
  let (piece, more) := firstPiece isSeparator sequence
  piece :: more

end Calculator.Text
