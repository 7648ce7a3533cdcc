import Calculator.Proofs.Expr.Reading

namespace Calculator.Expr

open Parsing

def Within (last : Value) (rank : Rank) (limit : Nat) (word : List Token) (e : Expr) : Prop :=
  ∃ nesting < limit, Derives last rank word e nesting

def opens (s : Symbol) : Bool := s == .openParen

def extendsPower (s : Symbol) : Bool := opens s || s.operator? == some .pow

def extendsProduct (s : Symbol) : Bool := extendsPower s || extendsChain isMultiplicative s

def extendsSum (s : Symbol) : Bool := extendsProduct s || extendsChain isAdditive s

theorem joins_sum_iff {s : Symbol} {op : Operator} :
    Joins .sum s op ↔ s.operator?.filter isAdditive = some op := by
  constructor
  · intro joins
    cases joins <;> rfl
  · intro accepted
    cases s <;> cases accepted
    · exact .plus
    · exact .minus

theorem joins_product_iff {s : Symbol} {op : Operator} :
    Joins .product s op ↔ s.operator?.filter isMultiplicative = some op := by
  constructor
  · intro joins
    cases joins <;> rfl
  · intro accepted
    cases s <;> cases accepted
    · exact .star
    · exact .slash

theorem joins_power_iff {s : Symbol} {op : Operator} :
    Joins .power s op ↔ s.operator? = some .pow ∧ op = .pow := by
  constructor
  · intro joins
    cases joins <;> exact ⟨rfl, rfl⟩
  · intro isPower
    rcases isPower with ⟨accepted, rfl⟩
    cases s <;> cases accepted
    · exact .caret
    · exact .doubleStar

theorem chain_of_sum {last : Value} {limit : Nat} {word : List Token} {e : Expr} {n : Nat}
    (below : n < limit) : Derives last .sum word e n → Chain isAdditive (Within last .product limit) word e
  | .ofProduct only => .single ⟨n, below, only⟩
  | .sum (p := p) before joins right =>
    .more (t := ⟨_, p⟩) (chain_of_sum (Nat.lt_of_le_of_lt (Nat.le_max_left ..) below) before)
      (joins_sum_iff.mp joins) ⟨_, Nat.lt_of_le_of_lt (Nat.le_max_right ..) below, right⟩

theorem chain_of_product {last : Value} {limit : Nat} {word : List Token} {e : Expr} {n : Nat}
    (below : n < limit) :
    Derives last .product word e n → Chain isMultiplicative (Within last .power limit) word e
  | .ofPower only => .single ⟨n, below, only⟩
  | .product (p := p) before joins right =>
    .more (t := ⟨_, p⟩) (chain_of_product (Nat.lt_of_le_of_lt (Nat.le_max_left ..) below) before)
      (joins_product_iff.mp joins) ⟨_, Nat.lt_of_le_of_lt (Nat.le_max_right ..) below, right⟩

theorem within_of_chain {last : Value} {rank lower : Rank} {accepts : Operator → Bool} {limit : Nat}
    (only : ∀ {word e n}, Derives last lower word e n → Derives last rank word e n)
    (joined : ∀ {word word' : List Token} {t : Token} {op : Operator} {left right : Expr} {m n : Nat},
      Derives last rank word left m → t.symbol.operator?.filter accepts = some op → Derives last lower word' right n →
        Derives last rank (word ++ t :: word') (.binary op left right t.position) (max m n))
    {word : List Token} {e : Expr} (chain : Chain accepts (Within last lower limit) word e) :
    Within last rank limit word e := by
  induction chain with
  | single one =>
    obtain ⟨n, below, derives⟩ := one
    exact ⟨n, below, only derives⟩
  | more _ accepted right ih =>
    obtain ⟨m, belowLeft, left⟩ := ih
    obtain ⟨n, belowRight, right⟩ := right
    exact ⟨max m n, Nat.max_lt.mpr ⟨belowLeft, belowRight⟩, joined left accepted right⟩

theorem chain_iff_sum {last : Value} {limit : Nat} {word : List Token} {e : Expr} :
    Chain isAdditive (Within last .product limit) word e ↔ Within last .sum limit word e := by
  constructor
  · exact within_of_chain .ofProduct fun left accepted right => .sum left (joins_sum_iff.mpr accepted) right
  · rintro ⟨n, below, derives⟩
    exact chain_of_sum below derives

theorem chain_iff_product {last : Value} {limit : Nat} {word : List Token} {e : Expr} :
    Chain isMultiplicative (Within last .power limit) word e ↔ Within last .product limit word e := by
  constructor
  · exact within_of_chain .ofPower fun left accepted right => .product left (joins_product_iff.mpr accepted) right
  · rintro ⟨n, below, derives⟩
    exact chain_of_product below derives

section Powers

variable {last : Value} {depth limit : Nat}

theorem sumOf_recognises {power : Parser Expr}
    (recognises : Recognises depth power (Within last .power limit) operatorCount extendsPower) :
    Recognises depth (sumOf power) (Within last .sum limit) operatorCount extendsSum := by
  have apartProduct : ∀ s, extendsChain isMultiplicative s = true → extendsPower s = false := by
    intro s
    cases s <;> simp [extendsChain, extendsPower, opens, Symbol.operator?, isMultiplicative]
  have apartSum : ∀ s, extendsChain isAdditive s = true → extendsProduct s = false := by
    intro s
    cases s <;> simp [extendsChain, extendsProduct, extendsPower, opens, Symbol.operator?, isMultiplicative,
      isAdditive]
  have product := (chain_recognises recognises apartProduct).congr fun _ _ => chain_iff_product
  exact (chain_recognises product apartSum).congr fun _ _ => chain_iff_sum

theorem powerOf_recognises {factor exponent : Parser Expr}
    (factorReads : Recognises depth factor (Within last .factor limit) operatorCount opens)
    (exponentReads : Recognises depth exponent (Within last .power (limit - 1)) operatorCount extendsPower) :
    Recognises depth (powerOf factor exponent) (Within last .power limit) operatorCount extendsPower where
  counts := powerOf_counts factorReads.counts exponentReads.counts
  sound {s u e} level given := by
    obtain ⟨base, t, reads, behind⟩ := gives_powerOf_iff.mp given
    obtain ⟨word, split, m, nested, derives⟩ := factorReads.sound level reads
    rcases behind with ⟨-, rfl, rfl⟩ | ⟨next, tail, following, isPower, -, right, readsRight, rfl⟩
    · exact ⟨word, split, m, nested, .ofFactor derives⟩
    · have level' : t.depth = depth := (factorReads.counts _ _ _ reads).depth.trans level
      obtain ⟨word', split', n, nested', derives'⟩ := exponentReads.sound (s := t.counted.past) level' readsRight
      have behind : tail = word' ++ u.rest := by
        simpa [Progress.past, Progress.counted, following] using split'
      refine ⟨word ++ next :: word', ?_, max m (n + 1), by omega, ?_⟩
      · rw [split, following, behind, List.append_assoc, List.cons_append]
      · exact .power derives (joins_power_iff.mpr ⟨isPower, rfl⟩) derives'
  complete {word e} rest operators within limited stops := by
    obtain ⟨nesting, nested, derives⟩ := within
    have opensNot : Stops opens rest := fun t first => (Bool.or_eq_false_iff.mp (stops t first)).1
    have powNot : Stops (fun s => s.operator? == some .pow) rest :=
      fun t first => (Bool.or_eq_false_iff.mp (stops t first)).2
    refine gives_powerOf_iff.mpr ?_
    cases derives with
    | ofFactor factor =>
      have reads := factorReads.complete rest operators ⟨nesting, nested, factor⟩ limited opensNot
      exact ⟨e, _, reads, .inl ⟨fun n first => by simpa using powNot n first, rfl, rfl⟩⟩
    | @power word word' base right m n symbol op p factor joins power =>
      obtain ⟨isPower, rfl⟩ := joins_power_iff.mp joins
      simp only [operatorCount] at limited ⊢
      have joint : Stops opens (⟨symbol, p⟩ :: (word' ++ rest)) := stops_cons (by cases joins <;> rfl)
      have baseReads := factorReads.complete (⟨symbol, p⟩ :: (word' ++ rest)) operators
        ⟨m, by omega, factor⟩ (by omega) joint
      have rightReads := exponentReads.complete rest (operators + base.operatorCount + 1)
        ⟨n, by omega, power⟩ (by omega) stops
      have sameCount : operators + base.operatorCount + 1 + right.operatorCount =
          operators + (base.operatorCount + right.operatorCount + 1) := by omega
      rw [sameCount] at rightReads
      rw [List.append_assoc, List.cons_append]
      have room : operators + base.operatorCount < maxOperators := by omega
      exact ⟨base, _, baseReads, .inr ⟨⟨symbol, p⟩, word' ++ rest, rfl, isPower, room, right, rightReads, rfl⟩⟩

end Powers

theorem valueOfName?_eq_some_iff {last v : Value} {name : String} :
    valueOfName? last name = some v ↔ NamedNumber last name v := by
  constructor
  · intro found
    unfold valueOfName? at found
    split at found <;> cases found
    · exact .answer ‹_›
    · exact .euler ‹_›
    · exact .pi (.inl ‹_›)
    · exact .pi (.inr ‹_›)
  · intro named
    cases named with
    | answer folded => simp [valueOfName?, folded]
    | euler folded => simp [valueOfName?, folded]
    | pi folded => rcases folded with folded | folded <;> simp [valueOfName?, folded]

theorem Derives.begins {last : Value} {rank : Rank} {word : List Token} {e : Expr} {n : Nat}
    (h : Derives last rank word e n) : ∃ t tail, word = t :: tail ∧ t.symbol ≠ .closeParen := by
  induction h with
  | ofProduct _ ih | ofPower _ ih | ofFactor _ ih => exact ih
  | sum _ _ _ ih _ | product _ _ _ ih _ | power _ _ _ ih _ =>
    obtain ⟨t, tail, rfl, other⟩ := ih
    exact ⟨t, _, rfl, other⟩
  | _ => exact ⟨_, _, rfl, by simp⟩

theorem derives_call {last : Value} {limit p q : Nat} {name : String} {word : List Token} {es : List Expr}
    {e : Expr} (enclosed : Enclosed (Within last .sum limit) word es) (called : call name p es = .ok e) :
    Within last .factor (limit + 1) (⟨.name name, p⟩ :: ⟨.openParen, q⟩ :: word) e := by
  rcases enclosed with ⟨r, rfl, rfl⟩ | listed
  · cases called
    exact ⟨0, by omega, .call0⟩
  · cases listed with
    | @last word only t inSum closes =>
      obtain ⟨n, below, derives⟩ := inSum
      obtain ⟨symbol, r⟩ := t
      cases closes
      cases called
      exact ⟨n + 1, by omega, .call1 derives⟩
    | @more word _ first _ t inSum comma following =>
      obtain ⟨m, belowFirst, derivesFirst⟩ := inSum
      cases following with
      | @last word' second t' inSum' closes =>
        obtain ⟨n, belowSecond, derivesSecond⟩ := inSum'
        obtain ⟨symbol, c⟩ := t
        obtain ⟨symbol', r⟩ := t'
        cases comma
        cases closes
        cases called
        exact ⟨max m n + 1, by omega, .call2 derivesFirst derivesSecond⟩
      | more _ _ following => cases following <;> cases called

/-- What is read as a factor behind its name: the arguments of a call, or nothing. -/
inductive Named (last : Value) (limit : Nat) (name : String) (p : Nat) : List Token → Expr → Prop
  | called {q word es e} (enclosed : Enclosed (Within last .sum limit) word es) (called : call name p es = .ok e) :
      Named last limit name p (⟨.openParen, q⟩ :: word) e
  | alone {v} (found : NamedNumber last name v) : Named last limit name p [] (.number v p)

section Factors

variable {last : Value} {depth limit : Nat} {sum : Parser Expr}
  (sumReads : Recognises depth sum (Within last .sum limit) operatorCount extendsSum)
include sumReads

theorem arguments_within (opened : Nat) :
    Recognises depth (arguments opened sum) (Enclosed (Within last .sum limit)) operatorCounts (fun _ => false) :=
  arguments_recognises sumReads opened rfl rfl fun _ _ ⟨_, _, derives⟩ => derives.begins

theorem named_recognises (name : String) (p : Nat) :
    Recognises depth (named last sum name p) (Named last limit name p) operatorCount opens where
  counts := named_counts name p sumReads.counts
  sound {s u e} level given := by
    rcases gives_named_iff.mp given with ⟨q, tail, es, following, reads, called⟩ | ⟨-, v, found, rfl, rfl⟩
    · obtain ⟨word, split, enclosed⟩ := (arguments_within sumReads q).sound (s := s.past) level reads
      have behind : tail = word ++ u.rest := by simpa [Progress.past, following] using split
      exact ⟨⟨.openParen, q⟩ :: word, by rw [following, behind, List.cons_append], .called enclosed called⟩
    · exact ⟨[], rfl, .alone (valueOfName?_eq_some_iff.mp found)⟩
  complete {word e} rest operators read limited stops := by
    cases read with
    | @called q word es e enclosed called =>
      have sameCount := operatorCount_call called
      rw [sameCount] at limited ⊢
      have reads := (arguments_within sumReads q).complete rest operators enclosed limited fun _ _ => rfl
      exact gives_named_iff.mpr (.inl ⟨q, word ++ rest, es, rfl, reads, called⟩)
    | @alone v found =>
      have alone : ∀ n ∈ rest.head?, n.symbol ≠ .openParen := fun n first => by simpa [opens] using stops n first
      exact gives_named_iff.mpr (.inr ⟨alone, v, valueOfName?_eq_some_iff.mpr found, rfl, rfl⟩)

theorem gives_factorOf_of_named {factor : Parser Expr} {name : String} {p : Nat} {word : List Token} {e : Expr}
    {rest : List Token} {operators : Nat} (read : Named last limit name p word e)
    (limited : operators + e.operatorCount ≤ maxOperators) (stops : Stops opens rest) :
    Gives (factorOf last factor sum) ⟨⟨.name name, p⟩ :: word ++ rest, depth, operators⟩ e
      ⟨rest, depth, operators + e.operatorCount⟩ :=
  gives_factorOf_name_iff.mpr ((named_recognises sumReads name p).complete rest operators read limited stops)

theorem factorOf_recognises {factor : Parser Expr}
    (factorReads : Recognises depth factor (Within last .factor limit) operatorCount opens) :
    Recognises depth (factorOf last factor sum) (Within last .factor (limit + 1)) operatorCount opens where
  counts := factorOf_counts factorReads.counts sumReads.counts
  sound {s u e} level given := by
    obtain ⟨rest, depth, operators⟩ := s
    rcases rest with _ | ⟨⟨symbol, p⟩, tail⟩
    · exact absurd given (not_gives_fail (s := ⟨[], depth, operators⟩))
    cases symbol with
    | minus =>
      obtain ⟨operand, reads, rfl⟩ := gives_factorOf_minus_iff.mp given
      obtain ⟨word, rfl, n, nested, derives⟩ := factorReads.sound (s := ⟨tail, depth, operators⟩) level reads
      exact ⟨⟨.minus, p⟩ :: word, rfl, n + 1, by omega, .negation derives⟩
    | integer k =>
      obtain ⟨rfl, rfl⟩ := gives_advance_pure_iff.mp given
      exact ⟨[⟨.integer k, p⟩], rfl, 0, by omega, .integer⟩
    | real x =>
      obtain ⟨rfl, rfl⟩ := gives_advance_pure_iff.mp given
      exact ⟨[⟨.real x, p⟩], rfl, 0, by omega, .real⟩
    | openParen =>
      have groupReads := group_recognises p sumReads rfl
      obtain ⟨word, rfl, inner, q, rfl, n, nested, derives⟩ :=
        groupReads.sound (s := ⟨tail, depth, operators⟩) level (gives_factorOf_openParen_iff.mp given)
      exact ⟨⟨.openParen, p⟩ :: (inner ++ [⟨.closeParen, q⟩]), rfl, n + 1, by omega, .group derives⟩
    | name name =>
      obtain ⟨word, rfl, read⟩ := (named_recognises sumReads name p).sound (s := ⟨tail, depth, operators⟩) level
        (gives_factorOf_name_iff.mp given)
      refine ⟨⟨.name name, p⟩ :: word, rfl, ?_⟩
      cases read with
      | called enclosed called => exact derives_call enclosed called
      | alone found => exact ⟨0, by omega, .named found⟩
    | _ => exact absurd given (not_gives_fail (s := ⟨tail, depth, operators⟩))
  complete {word e} rest operators within limited stops := by
    obtain ⟨nesting, nested, derives⟩ := within
    cases derives with
    | @negation word e n p factor =>
      have reads := factorReads.complete rest operators ⟨n, by omega, factor⟩ limited stops
      exact gives_factorOf_minus_iff.mpr ⟨e, reads, rfl⟩
    | integer | real => rfl
    | named found => exact gives_factorOf_of_named sumReads (.alone found) limited stops
    | @group word e n p q sum =>
      have reads := (group_recognises p sumReads rfl).complete rest operators
        ⟨word, q, rfl, n, by omega, sum⟩ limited fun _ _ => rfl
      exact gives_factorOf_openParen_iff.mpr reads
    | @call0 name p q r =>
      have enclosed : Enclosed (Within last .sum limit) [⟨.closeParen, r⟩] [] := .inl ⟨r, rfl, rfl⟩
      exact gives_factorOf_of_named sumReads (.called enclosed rfl) limited stops
    | @call1 word e n name p q r argument =>
      have enclosed : Enclosed (Within last .sum limit) (word ++ [⟨.closeParen, r⟩]) [e] :=
        .inr (.last ⟨n, by omega, argument⟩ rfl)
      exact gives_factorOf_of_named sumReads (.called enclosed rfl) limited stops
    | @call2 word word' e f m n name p q c r first second =>
      have enclosed : Enclosed (Within last .sum limit)
          (word ++ ⟨.comma, c⟩ :: (word' ++ [⟨.closeParen, r⟩])) [e, f] :=
        .inr (.more ⟨m, by omega, first⟩ rfl (.last ⟨n, by omega, second⟩ rfl))
      exact gives_factorOf_of_named sumReads (.called enclosed rfl) limited stops

end Factors

/-- At a depth, the parsers read what is nested no deeper than there is room. -/
theorem routines_recognise (last : Value) {depth room : Nat} (level : depth + room = maxNesting) :
    Recognises depth (routines last (room + 1)).factor (Within last .factor (room + 1)) operatorCount opens ∧
      Recognises depth (routines last (room + 1)).power (Within last .power room) operatorCount extendsPower := by
  have never (rank : Rank) (word : List Token) (e : Expr) : False ↔ Within last rank 0 word e :=
    ⟨False.elim, fun ⟨_, below, _⟩ => absurd below (Nat.not_lt_zero _)⟩
  -- The parsers read their operands one nesting deeper, so both are carried along.
  induction room generalizing depth with
  | zero =>
    obtain ⟨factorCounts, powerCounts⟩ := routines_count last 0
    have full : ¬ depth < maxNesting := by omega
    have factor : Recognises depth (nested (routines last 0).factor) (Within last .factor 0) operatorCount opens :=
      (nested_recognises_full full factorCounts).congr (never .factor)
    have exponent :
        Recognises depth (nested (routines last 0).power) (Within last .power 0) operatorCount extendsPower :=
      (nested_recognises_full full powerCounts).congr (never .power)
    have power := powerOf_recognises factor exponent
    exact ⟨factorOf_recognises (sumOf_recognises power) factor, power⟩
  | succ room ih =>
    have deeper : depth + 1 + room = maxNesting := by omega
    obtain ⟨factorReads, powerReads⟩ := ih deeper
    have within : depth < maxNesting := by omega
    have factor := nested_recognises within factorReads
    have power := powerOf_recognises factor (nested_recognises within powerReads)
    exact ⟨factorOf_recognises (sumOf_recognises power) factor, power⟩

theorem Derives.before_end {last : Value} {rank : Rank} {word : List Token} {e : Expr} {n : Nat}
    (h : Derives last rank word e n) : ∀ t ∈ word, t.symbol ≠ .done := by
  induction h with
  | ofProduct _ ih | ofPower _ ih | ofFactor _ ih => exact ih
  | sum _ joins _ ih ih' | product _ joins _ ih ih' | power _ joins _ ih ih' =>
    intro t member
    rcases List.mem_append.mp member with member | member
    · exact ih t member
    · rcases List.mem_cons.mp member with rfl | member
      · cases joins <;> simp
      · exact ih' t member
  | negation _ ih | group _ ih | call1 _ ih => grind
  | call2 _ _ ih ih' => grind
  | _ => simp

theorem Derives.places_eq {last : Value} {rank : Rank} {word : List Token} {e : Expr} {n : Nat}
    (h : Derives last rank word e n) : (word.filter makesNode).map Token.position = e.places := by
  have joint {rank : Rank} {s : Symbol} {op : Operator} (p : Nat) (joins : Joins rank s op) :
      makesNode ⟨s, p⟩ = true := by cases joins <;> rfl
  induction h with
  | ofProduct _ ih | ofPower _ ih | ofFactor _ ih => exact ih
  | sum _ joins _ ih ih' | product _ joins _ ih ih' | power _ joins _ ih ih' =>
    simp [joint _ joins, ih, ih', places]
  | negation _ ih | group _ ih | call1 _ ih => simp [List.filter_cons, makesNode, ih, places]
  | call2 _ _ ih ih' => simp [List.filter_cons, makesNode, ih, ih', places]
  | _ => simp [List.filter_cons, makesNode, places]

theorem ofTokens_eq_ok_iff_gives {last : Value} {tokens : List Token} {e : Expr} :
    ofTokens last tokens = .ok e ↔ ∃ t, Gives (formula last) ⟨tokens, 0, 0⟩ e t := by
  unfold ofTokens Gives
  cases (formula last : Parser Expr) ⟨tokens, 0, 0⟩ with
  | error e => simp [Except.map]
  | ok r => simp [Except.map, Prod.ext_iff]

theorem gives_formula_iff {last : Value} {s u : Progress} {e : Expr} :
    Gives (formula last) s e u ↔ Gives (routines last (maxNesting + 1)).sum s e u ∧
      ∃ final rest, u.rest = final :: rest ∧ final.symbol = .done := by
  rw [formula, gives_bind_iff]
  constructor
  · rintro ⟨first, ⟨rest, depth, operators⟩, reads, ends⟩
    rw [gives_peek_bind_iff] at ends
    rcases rest with _ | ⟨⟨symbol, p⟩, rest⟩
    · exact absurd ends not_gives_fail
    cases symbol with
    | done =>
      obtain ⟨rfl, rfl⟩ := gives_pure_iff.mp ends
      exact ⟨reads, _, _, rfl, rfl⟩
    | _ => exact absurd ends not_gives_fail
  · obtain ⟨rest, depth, operators⟩ := u
    rintro ⟨reads, ⟨symbol, p⟩, rest, rfl, rfl⟩
    exact ⟨e, _, reads, rfl⟩

theorem ofTokens_eq_ok_iff {last : Value} {tokens : List Token} {e : Expr} :
    ofTokens last tokens = .ok e ↔ Spelled last tokens e := by
  have reads := sumOf_recognises (routines_recognise last (Nat.zero_add maxNesting)).2
  rw [ofTokens_eq_ok_iff_gives]
  constructor
  · rintro ⟨t, given⟩
    obtain ⟨given, final, rest, following, ends⟩ := gives_formula_iff.mp given
    obtain ⟨word, split, nesting, nested, derives⟩ := reads.sound rfl given
    obtain ⟨-, operators, limited⟩ := reads.counts _ _ _ given
    have operatorLimit : e.operatorCount ≤ maxOperators :=
      Nat.le_trans (Nat.le_of_eq (operators.trans (Nat.zero_add _)).symm) (limited (Nat.zero_le _))
    exact ⟨word, final, rest, nesting, following ▸ split, ends, derives.before_end, derives,
      Nat.le_of_lt_succ nested, operatorLimit⟩
  · rintro ⟨word, final, rest, nesting, rfl, ends, -, derives, nested, limited⟩
    have stops : Stops extendsSum (final :: rest) := stops_cons (by rw [ends]; rfl)
    have given := reads.complete (final :: rest) 0 ⟨nesting, Nat.lt_succ_of_le nested, derives⟩
      (by rw [Nat.zero_add]; exact limited) stops
    exact ⟨_, gives_formula_iff.mpr ⟨given, final, rest, rfl, ends⟩⟩

theorem ofTokens_of_factor {last : Value} {word : List Token} {e : Expr} {nesting p : Nat}
    (derives : Derives last .factor word e nesting) (nested : nesting ≤ 255)
    (limited : e.operatorCount ≤ 1000) : ofTokens last (word ++ [⟨.done, p⟩]) = .ok e :=
  ofTokens_eq_ok_iff.mpr ⟨word, ⟨.done, p⟩, [], nesting, rfl, rfl, derives.before_end,
    derives.sum_of_factor, nested, limited⟩

theorem takeWhile_before_end {word rest : List Token} {final : Token}
    (before : ∀ t ∈ word, t.symbol ≠ .done) (ends : final.symbol = .done) :
    (word ++ final :: rest).takeWhile (fun t => t.symbol ≠ .done) = word := by
  rw [List.takeWhile_append_of_pos (by simpa using before)]
  simp [ends]

/-- Exactly the words of the grammar within the limits are read, each as its only tree. The nodes of the
    tree stand from left to right where the tokens stand that make them. -/
theorem ofTokens_follows_grammar (last : Value) (tokens : List Token) :
    (∀ e, ofTokens last tokens = .ok e ↔ Spelled last tokens e) ∧
      (∀ e e', Spelled last tokens e → Spelled last tokens e' → e = e') ∧
      (∀ e, Spelled last tokens e →
        ((tokens.takeWhile fun t => t.symbol ≠ .done).filter makesNode).map Token.position = e.places) := by
  refine ⟨fun e => ofTokens_eq_ok_iff, fun e e' spelled spelled' => ?_, fun e spelled => ?_⟩
  · have parsed := ofTokens_eq_ok_iff.mpr spelled
    rw [ofTokens_eq_ok_iff.mpr spelled'] at parsed
    exact (Except.ok.inj parsed).symm
  · obtain ⟨word, final, rest, nesting, rfl, ends, before, derives, -, -⟩ := spelled
    rw [takeWhile_before_end before ends]
    exact derives.places_eq

/-- The formula (-2)^ANS with a token after its end. -/
theorem ofTokens_negative_to_answer :
    let tokens : List Token :=
      [⟨.minus, 0⟩, ⟨.integer 2, 1⟩, ⟨.caret, 2⟩, ⟨.name "ANS", 3⟩, ⟨.done, 6⟩, ⟨.comma, 7⟩]
    let e : Expr := .binary .pow (.negation (.number (.integer 2) 1) 0) (.number (.integer 4) 3) 2
    Spelled (.integer 4) tokens e ∧ ofTokens (.integer 4) tokens = .ok e ∧
      ((tokens.takeWhile fun t => t.symbol ≠ .done).filter makesNode).map Token.position = e.places ∧
      (∀ e', Spelled (.integer 4) tokens e' → e' = e) := by
  intro tokens e
  have derives : Derives (.integer 4) .sum (tokens.take 4) e 1 :=
    .ofProduct (.ofPower (.power (.negation .integer) .caret (.ofFactor (.named (.answer (by decide))))))
  have spelled : Spelled (.integer 4) tokens e :=
    ⟨tokens.take 4, ⟨.done, 6⟩, [⟨.comma, 7⟩], 1, rfl, rfl, derives.before_end, derives, by decide,
      by decide⟩
  obtain ⟨reads, unique, placed⟩ := ofTokens_follows_grammar (.integer 4) tokens
  exact ⟨spelled, (reads e).mpr spelled, placed e spelled, fun e' other => unique e' e other spelled⟩

end Calculator.Expr
