namespace Calculator.Text

/-- The small letter of a capital one. All names the calculator knows are made of the letters a–z and π
and of root signs, and no other capital letter has one of these as its small letter. -/
def foldChar (c : Char) : Char := if c = 'Π' then 'π' else c.toLower

def fold (text : List Char) : List Char := text.map foldChar

def foldName (name : String) : String := String.ofList (fold name.toList)

end Calculator.Text
