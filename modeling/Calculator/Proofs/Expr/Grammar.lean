import Calculator.Expr.OfTokens

namespace Calculator.Expr

inductive Rank where
  | sum
  | product
  | power
  | factor

inductive Joins : Rank → Symbol → Operator → Prop
  | plus : Joins .sum .plus .add
  | minus : Joins .sum .minus .sub
  | star : Joins .product .star .mul
  | slash : Joins .product .slash .div
  | caret : Joins .power .caret .pow
  | doubleStar : Joins .power .doubleStar .pow

inductive NamedNumber (last : Value) : String → Value → Prop
  | answer {name : String} (folded : Text.foldName name = "ans") : NamedNumber last name last
  | euler {name : String} (folded : Text.foldName name = "e") :
      NamedNumber last name (.real Series.eulerNumber)
  | pi {name : String} (folded : Text.foldName name = "pi" ∨ Text.foldName name = "π") :
      NamedNumber last name (.real Elementary.pi)

/-- `Derives last rank word e nesting`: the word is read as the tree `e`, `last` being the last answer.
    Some factor of it lies in `nesting` parentheses, argument places, minus signs and exponents, and none
    lies in more. No rule puts an opening parenthesis after a factor, so a name that stands for a number
    is not followed by one. -/
inductive Derives (last : Value) : Rank → List Token → Expr → Nat → Prop
  | ofProduct {word e n} (product : Derives last .product word e n) : Derives last .sum word e n
  | sum {word word' left right m n symbol op p} (sum : Derives last .sum word left m)
      (joins : Joins .sum symbol op) (product : Derives last .product word' right n) :
      Derives last .sum (word ++ ⟨symbol, p⟩ :: word') (.binary op left right p) (max m n)
  | ofPower {word e n} (power : Derives last .power word e n) : Derives last .product word e n
  | product {word word' left right m n symbol op p} (product : Derives last .product word left m)
      (joins : Joins .product symbol op) (power : Derives last .power word' right n) :
      Derives last .product (word ++ ⟨symbol, p⟩ :: word') (.binary op left right p) (max m n)
  | ofFactor {word e n} (factor : Derives last .factor word e n) : Derives last .power word e n
  | power {word word' base exponent m n symbol op p} (factor : Derives last .factor word base m)
      (joins : Joins .power symbol op) (power : Derives last .power word' exponent n) :
      Derives last .power (word ++ ⟨symbol, p⟩ :: word') (.binary op base exponent p) (max m (n + 1))
  | negation {word e n p} (factor : Derives last .factor word e n) :
      Derives last .factor (⟨.minus, p⟩ :: word) (.negation e p) (n + 1)
  | integer {k p} : Derives last .factor [⟨.integer k, p⟩] (.number (.integer k) p) 0
  | real {x p} : Derives last .factor [⟨.real x, p⟩] (.number (.real x) p) 0
  | named {name v p} (named : NamedNumber last name v) :
      Derives last .factor [⟨.name name, p⟩] (.number v p) 0
  | group {word e n p q} (sum : Derives last .sum word e n) :
      Derives last .factor (⟨.openParen, p⟩ :: (word ++ [⟨.closeParen, q⟩])) e (n + 1)
  | call0 {name p q r} :
      Derives last .factor [⟨.name name, p⟩, ⟨.openParen, q⟩, ⟨.closeParen, r⟩] (.call0 name p) 0
  | call1 {word e n name p q r} (argument : Derives last .sum word e n) :
      Derives last .factor (⟨.name name, p⟩ :: ⟨.openParen, q⟩ :: (word ++ [⟨.closeParen, r⟩]))
        (.call1 name e p) (n + 1)
  | call2 {word word' e f m n name p q c r} (first : Derives last .sum word e m)
      (second : Derives last .sum word' f n) :
      Derives last .factor
        (⟨.name name, p⟩ :: ⟨.openParen, q⟩ :: (word ++ ⟨.comma, c⟩ :: (word' ++ [⟨.closeParen, r⟩])))
        (.call2 name e f p) (max m n + 1)

theorem Derives.sum_of_factor {last : Value} {word : List Token} {e : Expr} {n : Nat}
    (factor : Derives last .factor word e n) : Derives last .sum word e n :=
  .ofProduct (.ofPower (.ofFactor factor))

def operatorCount : Expr → Nat
  | .number _ _ => 0
  | .binary _ left right _ => left.operatorCount + right.operatorCount + 1
  | .negation e _ => e.operatorCount
  | .call0 _ _ => 0
  | .call1 _ e _ => e.operatorCount
  | .call2 _ e f _ => e.operatorCount + f.operatorCount

def places : Expr → List Nat
  | .number _ p => [p]
  | .binary _ left right p => left.places ++ p :: right.places
  | .negation e p => p :: e.places
  | .call0 _ p => [p]
  | .call1 _ e p => p :: e.places
  | .call2 _ e f p => p :: e.places ++ f.places

def makesNode (t : Token) : Bool :=
  match t.symbol with
  | .openParen | .closeParen | .comma => false
  | _ => true

/-- A reading of all tokens before an end, in the limits of nesting and of operators. -/
def Spelled (last : Value) (tokens : List Token) (e : Expr) : Prop :=
  ∃ word final rest nesting, tokens = word ++ final :: rest ∧ final.symbol = .done ∧
    (∀ t ∈ word, t.symbol ≠ .done) ∧ Derives last .sum word e nesting ∧
    nesting ≤ 255 ∧ e.operatorCount ≤ 1000

end Calculator.Expr
