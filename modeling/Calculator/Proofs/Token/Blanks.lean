import Calculator.Proofs.Expr.Evaluation
import Calculator.Proofs.Token.Scanning

namespace Calculator.Token

variable {l m : Lexeme} {front text rest rest' source : List Char} {lexemes : List Lexeme} {c : Char} {position : Nat}

section Lexemes

theorem IsRun.beginning {p : Char → Bool} (run : IsRun p text) (isPrefix : front <+: text) (nonempty : front ≠ []) :
    IsRun p front := ⟨nonempty, fun c member => run.2 c (isPrefix.subset member)⟩

theorem exists_beginning_decimal {digits places : List Char} (formed : Lexeme.WellFormed (.decimal digits places))
    (isPrefix : front <+: digits ++ '.' :: places) (nonempty : front ≠ []) :
    ∃ m : Lexeme, m.WellFormed ∧ m.text = front := by
  rcases List.prefix_or_prefix_of_prefix isPrefix (List.prefix_append digits _) with whole | pointed
  · exact ⟨.whole front, formed.1.beginning whole nonempty, rfl⟩
  · obtain ⟨tail, rfl⟩ := pointed
    have behind := (List.prefix_append_right_inj digits).mp isPrefix
    cases tail with
    | nil => exact ⟨.whole digits, formed.1, (List.append_nil digits).symm⟩
    | cons point tail =>
      obtain ⟨rfl, inside⟩ := List.cons_prefix_cons.mp behind
      exact ⟨.decimal digits tail, ⟨formed.1, fun c member => formed.2 c (inside.subset member)⟩, rfl⟩

theorem isName_beginning (name : isName text = true) (isPrefix : front <+: text) (long : 2 ≤ front.length) :
    isName front = true := by
  have whole (short : text.length ≤ 2) : isName front = true := by
    rw [isPrefix.eq_of_length_le (Nat.le_trans short long), name]
  unfold isName at name
  split at name
  · exact whole (by decide)
  · exact whole (by decide)
  · exact whole (by decide)
  · rename_i c tail _ _ _
    obtain ⟨begins, continued⟩ := Bool.and_eq_true_iff.mp name
    cases front with
    | nil => cases long
    | cons d following =>
      obtain ⟨rfl, inside⟩ := List.cons_prefix_cons.mp isPrefix
      exact isName_of_begins begins fun c member => List.all_eq_true.mp continued c (inside.subset member)
  · cases name

theorem Lexeme.WellFormed.exists_beginning (formed : l.WellFormed) (isPrefix : front <+: l.text)
    (long : 2 ≤ front.length) : ∃ m : Lexeme, m.WellFormed ∧ m.text = front := by
  have nonempty : front ≠ [] := List.length_pos_iff.mp (by omega)
  cases l with
  | spacing text => exact ⟨.spacing front, IsRun.beginning formed isPrefix nonempty, rfl⟩
  | whole digits => exact ⟨.whole front, IsRun.beginning formed isPrefix nonempty, rfl⟩
  | decimal digits places => exact exists_beginning_decimal formed isPrefix nonempty
  | name text => exact ⟨.name front, isName_beginning formed isPrefix long, rfl⟩
  | mark s =>
    have short : ∀ s ∈ marks, s.text.toList.length ≤ 2 := by decide
    exact ⟨.mark s, formed, (isPrefix.eq_of_length_le (Nat.le_trans (short s formed) long)).symm⟩

theorem Lexeme.WellFormed.eq_spacing (formed : l.WellFormed) (member : c ∈ l.text) (blank : isSpacing c = true) :
    ∃ run, l = .spacing run := by
  have apart (solid : isSpacing c = false) : ∃ run, l = .spacing run := absurd blank (by rw [solid]; decide)
  cases l with
  | spacing run => exact ⟨run, rfl⟩
  | whole digits => exact apart (not_isSpacing (formed.2 c member) (by decide))
  | decimal digits places =>
    have digit {c : Char} (digit : c.isDigit = true) : isSpacing c = false := not_isSpacing digit (by decide)
    rcases List.mem_append.mp member with here | behind
    · exact apart (digit (formed.1.2 c here))
    · rcases List.mem_cons.mp behind with rfl | place
      · exact apart (by decide)
      · exact apart (digit (formed.2 c place))
  | name text => exact apart (not_isSpacing (standsInName_of_isName formed c member) (by decide))
  | mark s =>
    have solid : ∀ s ∈ marks, (s.text.toList.all fun c => !isSpacing c) = true := by decide
    exact apart (by simpa using List.all_eq_true.mp (solid s formed) c member)

theorem exists_lexeme_of_longer (formed : l.WellFormed) (isPrefix : l.text <+: text ++ rest) (nonempty : text ≠ [])
    (longer : text.length < l.text.length) :
    ∃ c ∈ rest.head?, ∃ m : Lexeme, m.WellFormed ∧ m.text = text ++ [c] := by
  obtain ⟨tail, split⟩ : text <+: l.text :=
    List.prefix_of_prefix_length_le (List.prefix_append _ _) isPrefix (Nat.le_of_lt longer)
  have positive := List.length_pos_iff.mpr nonempty
  cases tail with
  | nil =>
    rw [← split, List.append_nil] at longer
    exact absurd longer (Nat.lt_irrefl _)
  | cons c tail =>
    have begins : text ++ [c] <+: l.text := ⟨tail, by rw [← split, List.append_assoc, List.singleton_append]⟩
    rw [← split, List.prefix_append_right_inj] at isPrefix
    obtain ⟨after, rfl⟩ := isPrefix
    exact ⟨c, rfl, formed.exists_beginning begins (by rw [List.length_append, List.length_singleton]; omega)⟩

theorem Leads.followed (leads : Leads l (l.text ++ rest)) (solid : l.pattern ≠ .spacing)
    (next : ∀ c ∈ rest'.head?, rest.head? = some c ∨ isSpacing c = true) : Leads l (l.text ++ rest') where
  wellFormed := leads.wellFormed
  isPrefix := List.prefix_append _ _
  longest := by
    intro other formed isPrefix
    by_contra longer
    obtain ⟨c, first, m, mFormed, mText⟩ :=
      exists_lexeme_of_longer formed isPrefix leads.text_ne_nil (Nat.lt_of_not_le longer)
    rcases next c first with same | blank
    · obtain ⟨behind, rfl⟩ := List.head?_eq_some_iff.mp same
      have begins : m.text <+: l.text ++ c :: behind := by
        rw [mText]
        exact ⟨behind, List.append_assoc _ _ _⟩
      have bound := leads.longest m mFormed begins
      rw [mText, List.length_append] at bound
      exact absurd bound (Nat.not_succ_le_self _)
    · obtain ⟨run, rfl⟩ := mFormed.eq_spacing (by rw [mText]; exact List.mem_concat_self) blank
      have begins : l.text <+: run := ⟨[c], mText.symm⟩
      have same : l = .spacing l.text :=
        Lexeme.eq_of_text_eq leads.wellFormed (IsRun.beginning mFormed begins leads.text_ne_nil) rfl
      exact solid (congrArg Lexeme.pattern same)

end Lexemes

section Spaced

/-- The text of lexemes with blanks put in at its ends and between them. -/
inductive Spaced : List Lexeme → List Char → Prop where
  | nil : Spaced [] []
  | blank {lexemes : List Lexeme} {text : List Char} {c : Char} (blank : isSpacing c = true)
      (spaced : Spaced lexemes text) : Spaced lexemes (c :: text)
  | lexeme {lexemes : List Lexeme} {text : List Char} {l : Lexeme} (solid : l.pattern ≠ .spacing)
      (spaced : Spaced lexemes text) : Spaced (l :: lexemes) (l.text ++ text)
  | gap {lexemes : List Lexeme} {text run blanks : List Char} (more : run.Sublist blanks)
      (blank : ∀ c ∈ blanks, isSpacing c = true) (spaced : Spaced lexemes text) :
      Spaced (.spacing run :: lexemes) (blanks ++ text)

/-- The second text is the first with blanks put in at its ends and between its longest lexemes. -/
def InsertsBlanks (source text : List Char) : Prop := ∃ lexemes, Cut source lexemes [] ∧ Spaced lexemes text

theorem scanFrom_run (position : Nat) (run : IsRun isSpacing text) (leaves : Text.Leaves isSpacing rest) :
    scanFrom List.length position (text ++ rest) = scanFrom List.length (position + text.length) rest := by
  have found : longest? (text ++ rest) = _ := longest?_spacing run
  rw [Text.takeWhile_of_leaves leaves, List.length_nil, Nat.add_zero] at found
  have scans : Scans position text rest [] := scans_lexeme none found rfl
  rw [scans]
  cases scanFrom List.length (position + text.length) rest <;> rfl

theorem scanFrom_blank (blank : isSpacing c = true) :
    scanFrom List.length position (c :: text) = scanFrom List.length (position + 1) text := by
  have leaves : Text.Leaves isSpacing (text.dropWhile isSpacing) := Text.leaves_dropWhile
  have all : IsRun isSpacing (c :: text.takeWhile isSpacing) := isRun_takeWhile blank
  have behind : scanFrom List.length (position + 1) text =
      scanFrom List.length (position + 1 + (text.takeWhile isSpacing).length) (text.dropWhile isSpacing) := by
    by_cases none : text.takeWhile isSpacing = []
    · have solid : text.dropWhile isSpacing = text := by
        have split := List.takeWhile_append_dropWhile (p := isSpacing) (l := text)
        rwa [none] at split
      rw [none, solid]
      rfl
    · have run : IsRun isSpacing (text.takeWhile isSpacing) := ⟨none, List.all_eq_true.mp List.all_takeWhile⟩
      have onward := scanFrom_run (position + 1) run leaves
      rwa [List.takeWhile_append_dropWhile] at onward
  have length : position + (c :: text.takeWhile isSpacing).length =
      position + 1 + (text.takeWhile isSpacing).length := by
    rw [List.length_cons]
    omega
  have onward := scanFrom_run position all leaves
  rw [List.cons_append, List.takeWhile_append_dropWhile, length] at onward
  rw [onward, behind]

theorem scanFrom_blanks (blank : ∀ c ∈ front, isSpacing c = true) (text : List Char) :
    scanFrom List.length position (front ++ text) = scanFrom List.length (position + front.length) text := by
  induction front generalizing position with
  | nil => rfl
  | cons c front ih =>
    obtain ⟨first, others⟩ := List.forall_mem_cons.mp blank
    rw [List.cons_append, scanFrom_blank first, ih others, List.length_cons, Nat.add_assoc, Nat.add_comm 1]

theorem map_symbol_tokensOf (position : Nat) (lexemes : List Lexeme) :
    (tokensOf position lexemes).map Token.symbol = lexemes.filterMap Lexeme.symbol? := by
  induction lexemes generalizing position with
  | nil => rfl
  | cons l lexemes ih =>
    rw [tokensOf, List.map_append, ih, List.filterMap_cons]
    cases l.symbol? <;> rfl

theorem Spaced.start (spaced : Spaced lexemes text) (cut : Cut source lexemes []) :
    ∀ c ∈ text.head?, source.head? = some c ∨ isSpacing c = true := by
  intro c first
  cases spaced with
  | nil => cases first
  | blank blank spaced =>
    cases first
    exact .inr blank
  | lexeme solid spaced =>
    cases cut with
    | cons leads following =>
      obtain ⟨d, tail, split⟩ := List.exists_cons_of_ne_nil leads.text_ne_nil
      rw [split] at first ⊢
      exact .inl first
  | @gap lexemes text run blanks more blank spaced =>
    cases cut with
    | cons leads following =>
      have nonempty : blanks ≠ [] := by
        rintro rfl
        exact leads.text_ne_nil (List.sublist_nil.mp more)
      obtain ⟨d, tail, rfl⟩ := List.exists_cons_of_ne_nil nonempty
      cases first
      exact .inr (blank _ List.mem_cons_self)

theorem exists_scan_of_spaced (spaced : Spaced lexemes text) (cut : Cut source lexemes [])
    (finite : ∀ l ∈ lexemes, l.IsFinite) (position : Nat) :
    ∃ tokens, scanFrom List.length position text = .ok tokens ∧
      tokens.map Token.symbol = lexemes.filterMap Lexeme.symbol? := by
  induction spaced generalizing source position with
  | nil => exact ⟨_, scanFrom_end, rfl⟩
  | blank blank spaced ih =>
    rw [scanFrom_blank blank]
    exact ih cut finite (position + 1)
  | gap more blank spaced ih =>
    rw [scanFrom_blanks blank]
    cases cut with
    | cons leads following => exact ih following (List.forall_mem_cons.mp finite).2 _
  | @lexeme lexemes text l solid spaced ih =>
    obtain ⟨first, others⟩ := List.forall_mem_cons.mp finite
    cases cut with
    | cons leads following =>
      have leads' : Leads l (l.text ++ text) := leads.followed solid (spaced.start following)
      have scans := scans_of_leads position leads' first
      obtain ⟨tokens, scansTail, symbols⟩ := ih following others (position + l.text.length)
      refine ⟨_, by rw [scans, scansTail]; rfl, ?_⟩
      rw [List.map_append, symbols, List.filterMap_cons]
      cases l.symbol? <;> rfl

theorem isFinite_of_scanFrom {tokens : List Token} (cut : Cut source lexemes [])
    (scans : scanFrom List.length position source = .ok tokens) : ∀ l ∈ lexemes, l.IsFinite := by
  induction lexemes generalizing source position tokens with
  | nil => exact nofun
  | cons l lexemes ih =>
    cases cut with
    | cons leads following =>
      by_cases finite : l.IsFinite
      · rw [scans_of_leads position leads finite] at scans
        obtain ⟨behind, scansTail, _⟩ := map_eq_ok_iff.mp scans
        exact List.forall_mem_cons.mpr ⟨finite, ih following scansTail⟩
      · rw [scanFrom_of_unscannable (.literalTooLarge leads finite)] at scans
        cases scans

/-- Blanks put in change the places of the tokens only. -/
theorem exists_scan_of_insertsBlanks {tokens : List Token} (scans : scan source = .ok tokens)
    (inserts : InsertsBlanks source text) :
    ∃ tokens', scan text = .ok tokens' ∧ tokens'.map Token.symbol = tokens.map Token.symbol := by
  obtain ⟨lexemes, cut, spaced⟩ := inserts
  obtain ⟨_, scansFrom, -⟩ := map_eq_ok_iff.mp ((scan_eq source).symm.trans scans)
  have finite := isFinite_of_scanFrom cut scansFrom
  obtain ⟨tokens', scans', symbols⟩ := exists_scan_of_spaced spaced cut finite 0
  rw [scan_of_cut_end cut finite] at scans
  cases scans
  refine ⟨_, (scan_eq text).trans (map_eq_ok_iff.mpr ⟨tokens', scans', rfl⟩), ?_⟩
  rw [List.map_append, List.map_append, symbols, map_symbol_tokensOf]
  rfl

end Spaced

end Calculator.Token
