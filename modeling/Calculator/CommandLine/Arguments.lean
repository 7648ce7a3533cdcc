import Calculator.Value

namespace Calculator.CommandLine

inductive Item where
  | base (text : String)
  | last (text : String)
  | fromFile
  | contents (text : String)
deriving DecidableEq, Repr

/-- Options with one hyphen: any number of `f`, and then perhaps an option with a value, which follows at
once, with or without an equals sign, or is the next argument. -/
inductive Cluster where
  | complete (items : List Item)
  | awaiting (items : List Item) (option : String → Item)
  | unknown

def withoutEquals : List Char → List Char
  | '=' :: value => value
  | value => value

def valueOption? : Char → Option (String → Item)
  | 'b' => some .base
  | 'a' => some .last
  | _ => none

def cluster (letters : List Char) : Cluster :=
  let flags := (letters.takeWhile (· = 'f')).map fun _ => Item.fromFile
  match letters.dropWhile (· = 'f') with
  | [] => .complete flags
  | c :: value =>
    match valueOption? c with
    | none => .unknown
    | some option =>
      if value = [] then .awaiting flags option
      else .complete (flags ++ [option (String.ofList (withoutEquals value))])

def longOption (text : List Char) : Cluster :=
  let name := String.ofList (text.takeWhile (· ≠ '='))
  match text.dropWhile (· ≠ '='), name with
  | [], "file" => .complete [.fromFile]
  | [], "base" => .awaiting [] .base
  | [], "ans" => .awaiting [] .last
  | _ :: value, "base" => .complete [.base (String.ofList value)]
  | _ :: value, "ans" => .complete [.last (String.ofList value)]
  | _, _ => .unknown

def argument (text : List Char) : Cluster :=
  match text with
  | '-' :: '-' :: name => longOption name
  | '-' :: c :: letters => cluster (c :: letters)
  | contents => .complete [.contents (String.ofList contents)]

/-- What the arguments say, in order. After `--` there are no options. -/
def items? : List String → Option (List Item)
  | [] => some []
  | "--" :: rest => some (rest.map .contents)
  | text :: rest =>
    match argument text.toList, rest with
    | .unknown, _ => none
    | .complete found, rest => (items? rest).map (found ++ ·)
    | .awaiting found option, value :: rest => (items? rest).map (found ++ option value :: ·)
    | .awaiting _ _, [] => none

structure Arguments where
  base? : Option NumeralBase
  last? : Option Value
  fromFile : Bool
  contents? : Option String
deriving DecidableEq, Repr

def Arguments.with? (a : Arguments) : Item → Option Arguments
  | .base text =>
    match a.base?, NumeralBase.read text with
    | none, .ok base => some { a with base? := some base }
    | _, _ => none
  | .last text =>
    match a.last?, Value.read text with
    | none, .ok value => some { a with last? := some value }
    | _, _ => none
  | .fromFile => if a.fromFile then none else some { a with fromFile := true }
  | .contents text =>
    match a.contents? with
    | none => some { a with contents? := some text }
    | some _ => none

def Arguments.read? (arguments : List String) : Option Arguments := do
  let items ← items? arguments
  items.foldlM Arguments.with? ⟨none, none, false, none⟩

end Calculator.CommandLine
