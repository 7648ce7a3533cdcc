namespace Calculator.Formula

def openAfter (unclosed : Nat) (c : Char) : Nat :=
  if c = '(' then unclosed + 1 else if c = ')' then unclosed - 1 else unclosed

def unclosed (formula : List Char) : Nat := formula.foldl openAfter 0

def closeParentheses (formula : List Char) : List Char :=
  formula ++ List.replicate (unclosed formula) ')'

end Calculator.Formula
