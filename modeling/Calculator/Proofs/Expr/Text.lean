import Calculator.Proofs.Expr.Recognition
import Calculator.Proofs.Token.Lexeme

namespace Calculator.Expr

open Text (Leaves leaves_cons)
open Token (Scans continuesLiteral extendsName isName scan)

def unplaced : Expr → Expr
  | .number v _ => .number v 0
  | .binary op left right _ => .binary op left.unplaced right.unplaced 0
  | .negation e _ => .negation e.unplaced 0
  | .call0 name _ => .call0 name 0
  | .call1 name e _ => .call1 name e.unplaced 0
  | .call2 name e f _ => .call2 name e.unplaced f.unplaced 0

/-- Formulas of whole numbers without a sign, whose names can stand in a text. -/
def Legible : Expr → Prop
  | .number (.integer n) _ => 0 ≤ n.toInt
  | .number (.real _) _ => False
  | .binary _ left right _ => left.Legible ∧ right.Legible
  | .negation e _ => e.Legible
  | .call0 name _ => isName name.toList = true
  | .call1 name e _ => isName name.toList = true ∧ e.Legible
  | .call2 name e f _ => isName name.toList = true ∧ e.Legible ∧ f.Legible

/-- The nesting of the text of a formula, its own place counted. An operator and a call put their operands
    in parentheses; an exponent takes one nesting more, and so does a minus sign. -/
def textDepth : Expr → Nat
  | .number _ _ => 1
  | .binary .pow base exponent _ => 1 + max base.textDepth (1 + exponent.textDepth)
  | .binary _ left right _ => 1 + max left.textDepth right.textDepth
  | .negation e _ => 2 + e.textDepth
  | .call0 _ _ => 1
  | .call1 _ e _ => 1 + e.textDepth
  | .call2 _ e f _ => 1 + max e.textDepth f.textDepth

theorem operatorCount_unplaced (e : Expr) : e.unplaced.operatorCount = e.operatorCount := by
  induction e with
  | number | call0 => rfl
  | binary op left right p ihl ihr => simp [unplaced, operatorCount, ihl, ihr]
  | negation e p ih => simp [unplaced, operatorCount, ih]
  | call1 name e p ih => simp [unplaced, operatorCount, ih]
  | call2 name e f p ihe ihf => simp [unplaced, operatorCount, ihe, ihf]

section Text

variable (left right e f : Expr) (op : Operator) (name : String) (p : Nat)

theorem text_integer (n : Int64) :
    (Expr.number (.integer n) p).text.toList = NumeralBase.decimal.showInt n.toInt :=
  String.toList_ofList

theorem text_binary : (Expr.binary op left right p).text.toList =
    ['('] ++ (left.text.toList ++
      ([' '] ++ (op.text.toList ++ ([' '] ++ (right.text.toList ++ [')']))))) := by
  change (s!"({left.text} {op.text} {right.text})").toList = _
  simp only [String.toList_append, List.append_assoc]
  rfl

theorem text_negation :
    (Expr.negation e p).text.toList = ['('] ++ (['-'] ++ (e.text.toList ++ [')'])) := by
  change (s!"(-{e.text})").toList = _
  simp only [String.toList_append, List.append_assoc]
  rfl

theorem text_call0 : (Expr.call0 name p).text.toList = name.toList ++ ['('] ++ [')'] := by
  change (s!"{name}()").toList = _
  simp only [String.toList_append, List.append_assoc]
  rfl

theorem text_call1 :
    (Expr.call1 name e p).text.toList = name.toList ++ ['('] ++ (e.text.toList ++ [')']) := by
  change (s!"{name}({e.text})").toList = _
  simp only [String.toList_append, List.append_assoc]
  rfl

theorem text_call2 : (Expr.call2 name e f p).text.toList =
    name.toList ++ ['('] ++ (e.text.toList ++ ([','] ++ ([' '] ++ (f.text.toList ++ [')'])))) := by
  change (s!"{name}({e.text}, {f.text})").toList = _
  simp only [String.toList_append, List.append_assoc]
  rfl

end Text

/-- A text at a place is read as a factor that is the formula but for the places of its nodes. -/
def ReadsBack (last : Value) (e : Expr) : Prop :=
  ∀ position rest, Leaves continuesLiteral rest →
    ∃ word e' nesting, Scans position e.text.toList rest word ∧ Derives last .factor word e' nesting ∧
      nesting + 1 = e.textDepth ∧ e'.unplaced = e.unplaced

theorem number_readsBack (last : Value) {n : Int64} (sign : 0 ≤ n.toInt) (p : Nat) :
    ReadsBack last (.number (.integer n) p) := by
  intro position rest leaves
  have magnitude : (n.toInt.natAbs : Int) = n.toInt := Int.natAbs_of_nonneg sign
  have text : (Expr.number (.integer n) p).text.toList = NumeralBase.decimal.digits n.toInt.natAbs := by
    rw [text_integer, NumeralBase.showInt_of_nonneg sign]
  have scans := Token.scans_whole position (Whole.natAbs_le_greatest sign) leaves
  rw [magnitude, Int64.ofInt_toInt] at scans
  exact ⟨[⟨.integer n, position⟩], .number (.integer n) position, 0, text ▸ scans, .integer, rfl,
    rfl⟩

def symbolOf : Operator → Symbol
  | .add => .plus
  | .sub => .minus
  | .mul => .star
  | .div => .slash
  | .pow => .caret

theorem scans_operator (op : Operator) (position : Nat) (rest : List Char) :
    Scans position op.text.toList (' ' :: rest) [⟨symbolOf op, position⟩] := by
  have spaced : Leaves (· == '*') (' ' :: rest) := leaves_cons.mpr rfl
  cases op <;> exact Token.scans_mark rfl fun _ => spaced

theorem derives_binary {last : Value} {left right : Expr} {word word' : List Token} {m n : Nat}
    (op : Operator) (p q r : Nat) (leftFactor : Derives last .factor word left m)
    (rightFactor : Derives last .factor word' right n) :
    Derives last .factor
      (⟨.openParen, p⟩ :: (word ++ ⟨symbolOf op, q⟩ :: (word' ++ [⟨.closeParen, r⟩])))
      (.binary op left right q) ((if op = .pow then max m (n + 1) else max m n) + 1) := by
  have inside : Derives last .sum (word ++ ⟨symbolOf op, q⟩ :: word') (.binary op left right q)
      (if op = .pow then max m (n + 1) else max m n) := by
    have leftPower : Derives last .power word left m := .ofFactor leftFactor
    have rightPower : Derives last .power word' right n := .ofFactor rightFactor
    cases op with
    | add => exact .sum (.ofProduct (.ofPower leftPower)) .plus (.ofPower rightPower)
    | sub => exact .sum (.ofProduct (.ofPower leftPower)) .minus (.ofPower rightPower)
    | mul => exact .ofProduct (.product (.ofPower leftPower) .star rightPower)
    | div => exact .ofProduct (.product (.ofPower leftPower) .slash rightPower)
    | pow => exact .ofProduct (.ofPower (.power leftFactor .caret rightPower))
  have group := Derives.group (p := p) (q := r) inside
  rw [List.append_assoc, List.cons_append] at group
  exact group

theorem textDepth_binary (op : Operator) (left right : Expr) (p : Nat) :
    (Expr.binary op left right p).textDepth =
      1 + if op = .pow then max left.textDepth (1 + right.textDepth)
        else max left.textDepth right.textDepth := by
  cases op <;> rfl

theorem scans_plain_mark {c : Char} {s : Symbol} (mark : Token.mark? c = some s) (other : c ≠ '*')
    (position : Nat) (rest : List Char) : Scans position [c] rest [⟨s, position⟩] :=
  Token.scans_mark mark fun star => absurd star other

theorem scans_open (position : Nat) (rest : List Char) :
    Scans position ['('] rest [⟨.openParen, position⟩] :=
  scans_plain_mark rfl (by decide) position rest

theorem scans_close (position : Nat) (rest : List Char) :
    Scans position [')'] rest [⟨.closeParen, position⟩] :=
  scans_plain_mark rfl (by decide) position rest

theorem text_solid {e : Expr} (legible : e.Legible) (rest : List Char) :
    Leaves Token.isSpacing (e.text.toList ++ rest) := by
  have solid : ∃ c tail, e.text.toList = c :: tail ∧ Token.isSpacing c = false := by
    have named {name : String} (legible : isName name.toList = true) (more : List Char) :
        ∃ c tail, name.toList ++ more = c :: tail ∧ Token.isSpacing c = false := by
      obtain ⟨c, tail, split, solid⟩ := Token.isName_solid legible
      exact ⟨c, tail ++ more, by rw [split, List.cons_append], solid⟩
    cases e with
    | number v p =>
      cases v with
      | integer n =>
        obtain ⟨c, tail, split⟩ :=
          List.exists_cons_of_ne_nil (NumeralBase.decimal.digits_ne_nil n.toInt.natAbs)
        have digit : c.isDigit = true := NumeralBase.isDigit_of_mem_digits (split ▸ List.mem_cons_self)
        refine ⟨c, tail, ?_, Token.not_isSpacing digit (by decide)⟩
        rw [text_integer, NumeralBase.showInt_of_nonneg legible, split]
      | real x => exact legible.elim
    | binary op left right p => exact ⟨_, _, text_binary left right op p, rfl⟩
    | negation e p => exact ⟨_, _, text_negation e p, rfl⟩
    | call0 name p =>
      rw [text_call0, List.append_assoc]
      exact named legible _
    | call1 name e p =>
      rw [text_call1, List.append_assoc]
      exact named legible.1 _
    | call2 name e f p =>
      rw [text_call2, List.append_assoc]
      exact named legible.1 _
  obtain ⟨c, tail, split, solid⟩ := solid
  rw [split]
  exact leaves_cons.mpr solid

theorem binary_readsBack {last : Value} {left right : Expr} (op : Operator) (p : Nat)
    (readsLeft : ReadsBack last left) (readsRight : ReadsBack last right) (legible : right.Legible) :
    ReadsBack last (.binary op left right p) := by
  intro position rest _
  have opSolid :
      Leaves Token.isSpacing (op.text.toList ++ ([' '] ++ (right.text.toList ++ [')'])) ++ rest) := by
    cases op <;> exact leaves_cons.mpr rfl
  have rightSolid : Leaves Token.isSpacing (right.text.toList ++ [')'] ++ rest) := by
    rw [List.append_assoc]
    exact text_solid legible _
  obtain ⟨word, left', m, scansLeft, derivesLeft, depthLeft, sameLeft⟩ := readsLeft (position + 1)
    ([' '] ++ (op.text.toList ++ ([' '] ++ (right.text.toList ++ [')']))) ++ rest) (leaves_cons.mpr rfl)
  obtain ⟨word', right', n, scansRight, derivesRight, depthRight, sameRight⟩ :=
    readsRight (position + 1 + left.text.toList.length + 1 + op.text.toList.length + 1) ([')'] ++ rest)
      (leaves_cons.mpr rfl)
  have scans := (scans_open position _).append (scansLeft.append ((Token.scans_blank opSolid).append
    ((scans_operator op _ _).append ((Token.scans_blank rightSolid).append
      (scansRight.append (scans_close _ rest))))))
  rw [← text_binary left right op p] at scans
  refine ⟨_, _, _, scans, derives_binary op _ _ _ derivesLeft derivesRight, ?_, ?_⟩
  · rw [textDepth_binary]
    split <;> omega
  · change Expr.binary op left'.unplaced right'.unplaced 0 = .binary op left.unplaced right.unplaced 0
    rw [sameLeft, sameRight]

theorem negation_readsBack {last : Value} {e : Expr} (p : Nat) (reads : ReadsBack last e) :
    ReadsBack last (.negation e p) := by
  intro position rest _
  obtain ⟨word, e', n, scansOperand, derives, depth, same⟩ :=
    reads (position + 1 + 1) ([')'] ++ rest) (leaves_cons.mpr rfl)
  have scans := (scans_open position _).append ((scans_plain_mark (c := '-') rfl (by decide) _ _).append
    (scansOperand.append (scans_close _ rest)))
  rw [← text_negation e p] at scans
  refine ⟨_, _, _, scans, .group derives.negation.sum_of_factor, ?_, ?_⟩
  · change n + 1 + 1 + 1 = 2 + e.textDepth
    omega
  · change Expr.negation e'.unplaced 0 = .negation e.unplaced 0
    rw [same]

section Calls

variable {last : Value} {name : String} {e f : Expr}

theorem scans_called (legible : isName name.toList = true) (position : Nat) (rest : List Char) :
    Scans position (name.toList ++ ['(']) rest
      [⟨.name name, position⟩, ⟨.openParen, position + name.toList.length⟩] := by
  have opened : Leaves extendsName (['('] ++ rest) := leaves_cons.mpr rfl
  have scans : Scans position name.toList (['('] ++ rest) _ := Token.scans_name legible opened
  rw [String.ofList_toList] at scans
  exact scans.append (scans_open _ rest)

theorem call0_readsBack (legible : isName name.toList = true) (p : Nat) : ReadsBack last (.call0 name p) := by
  intro position rest _
  have scans := (scans_called legible position _).append (scans_close _ rest)
  rw [← text_call0 name p] at scans
  exact ⟨_, .call0 name position, 0, scans, .call0, rfl, rfl⟩

theorem call1_readsBack (legible : isName name.toList = true) (reads : ReadsBack last e) (p : Nat) :
    ReadsBack last (.call1 name e p) := by
  intro position rest _
  obtain ⟨word, e', n, scansArgument, derives, depth, same⟩ :=
    reads (position + (name.toList ++ ['(']).length) ([')'] ++ rest) (leaves_cons.mpr rfl)
  have scans := (scans_called legible position _).append (scansArgument.append (scans_close _ rest))
  rw [← text_call1 e name p] at scans
  refine ⟨_, _, _, scans, .call1 derives.sum_of_factor, ?_, ?_⟩
  · change n + 1 + 1 = 1 + e.textDepth
    omega
  · change Expr.call1 name e'.unplaced 0 = .call1 name e.unplaced 0
    rw [same]

theorem call2_readsBack (legible : isName name.toList = true) (readsFirst : ReadsBack last e)
    (readsSecond : ReadsBack last f) (legibleSecond : f.Legible) (p : Nat) :
    ReadsBack last (.call2 name e f p) := by
  intro position rest _
  have secondSolid : Leaves Token.isSpacing (f.text.toList ++ [')'] ++ rest) := by
    rw [List.append_assoc]
    exact text_solid legibleSecond _
  obtain ⟨word, e', m, scansFirst, derivesFirst, depthFirst, sameFirst⟩ :=
    readsFirst (position + (name.toList ++ ['(']).length)
      ([','] ++ ([' '] ++ (f.text.toList ++ [')'])) ++ rest) (leaves_cons.mpr rfl)
  obtain ⟨word', f', n, scansSecond, derivesSecond, depthSecond, sameSecond⟩ :=
    readsSecond (position + (name.toList ++ ['(']).length + e.text.toList.length + 1 + 1) ([')'] ++ rest)
      (leaves_cons.mpr rfl)
  have scansComma (position : Nat) (rest : List Char) : Scans position [','] rest [⟨.comma, position⟩] :=
    scans_plain_mark rfl (by decide) position rest
  have scans := (scans_called legible position _).append (scansFirst.append ((scansComma _ _).append
    ((Token.scans_blank secondSolid).append (scansSecond.append (scans_close _ rest)))))
  rw [← text_call2 e f name p] at scans
  refine ⟨_, _, _, scans, .call2 derivesFirst.sum_of_factor derivesSecond.sum_of_factor, ?_, ?_⟩
  · change max m n + 1 + 1 = 1 + max e.textDepth f.textDepth
    omega
  · change Expr.call2 name e'.unplaced f'.unplaced 0 = .call2 name e.unplaced f.unplaced 0
    rw [sameFirst, sameSecond]

end Calls

theorem readsBack (last : Value) {e : Expr} (legible : e.Legible) : ReadsBack last e := by
  induction e with
  | number v p =>
    cases v with
    | integer n => exact number_readsBack last legible p
    | real x => exact legible.elim
  | binary op left right p ihl ihr => exact binary_readsBack op p (ihl legible.1) (ihr legible.2) legible.2
  | negation e p ih => exact negation_readsBack p (ih legible)
  | call0 name p => exact call0_readsBack legible p
  | call1 name e p ih => exact call1_readsBack legible.1 (ih legible.2) p
  | call2 name e f p ihe ihf =>
    exact call2_readsBack legible.1 (ihe legible.2.1) (ihf legible.2.2) legible.2.2 p

/-- Reading the text of a formula gives the formula, whatever the last answer is. -/
theorem ofTokens_scan_text (e : Expr) (legible : e.Legible) (limited : e.operatorCount ≤ 1000)
    (nested : e.textDepth ≤ 256) :
    ∃ tokens, scan e.text.toList = .ok tokens ∧
      ∀ last, ∃ e', ofTokens last tokens = .ok e' ∧ e'.unplaced = e.unplaced := by
  have reads (last : Value) : ∃ tokens, scan e.text.toList = .ok tokens ∧
      ∃ e', ofTokens last tokens = .ok e' ∧ e'.unplaced = e.unplaced := by
    obtain ⟨word, e', nesting, scans, derives, depth, same⟩ :=
      readsBack last legible 0 [] (Text.leaves_nil _)
    have sameCount : e'.operatorCount = e.operatorCount := by
      rw [← operatorCount_unplaced e', same, operatorCount_unplaced]
    have nestingLimit : nesting ≤ 255 := by omega
    have parsed := ofTokens_of_factor (p := e.text.toList.length) derives nestingLimit
      (sameCount ▸ limited)
    exact ⟨_, Token.scan_of_scans scans, e', parsed, same⟩
  obtain ⟨tokens, scanned, -⟩ := reads default
  refine ⟨tokens, scanned, fun last => ?_⟩
  obtain ⟨tokens', scanned', parsed⟩ := reads last
  rw [scanned] at scanned'
  cases scanned'
  exact parsed

/-- The text n√(((-2) ^ x_1()), √((7 - 9223372036854775807))). -/
theorem ofTokens_scan_text_roots :
    let power : Expr := .binary .pow (.negation (.number (.integer 2) 6) 5) (.call0 "x_1" 11) 9
    let root : Expr :=
      .call1 "√" (.binary .sub (.number (.integer 7) 22) (.number (.integer Int64.maxValue) 26) 24) 19
    let e : Expr := .call2 "n√" power root 0
    e.Legible ∧ e.operatorCount ≤ 1000 ∧ e.textDepth ≤ 256 ∧
      ∃ tokens, scan e.text.toList = .ok tokens ∧
        ∀ last, ∃ e', ofTokens last tokens = .ok e' ∧ e'.unplaced = e.unplaced := by
  intro power root e
  have two : (0 : Int) ≤ (2 : Int64).toInt := by decide
  have seven : (0 : Int) ≤ (7 : Int64).toInt := by decide
  have greatest : (0 : Int) ≤ Int64.maxValue.toInt := by decide
  have named : isName "x_1".toList = true := by decide
  have legible : e.Legible := ⟨by decide, ⟨two, named⟩, by decide, seven, greatest⟩
  have limited : e.operatorCount ≤ 1000 := by decide
  have nested : e.textDepth ≤ 256 := by decide
  exact ⟨legible, limited, nested, ofTokens_scan_text e legible limited nested⟩

end Calculator.Expr
