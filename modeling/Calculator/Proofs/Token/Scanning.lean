import Calculator.Proofs.Decimal.Literal
import Calculator.Proofs.Token.LongestMatch

namespace Calculator.Token

namespace Lexeme

def real? : Lexeme → Option Float
  | .whole digits => some (Decimal.toReal ⟨Decimal.valueOf digits, 0⟩)
  | .decimal digits places => some (Decimal.toReal ⟨Decimal.valueOf (digits ++ places), -places.length⟩)
  | _ => none

def IsFinite (l : Lexeme) : Prop := ∀ x ∈ l.real?, x.isFinite = true

def symbol? (l : Lexeme) : Option Symbol :=
  match l with
  | .spacing _ => none
  | .whole digits =>
    if (Decimal.valueOf digits : Int) ≤ Whole.greatest then
      some (.integer (Int64.ofInt (Decimal.valueOf digits)))
    else l.real?.map .real
  | .decimal _ _ => l.real?.map .real
  | .name text => some (.name (String.ofList text))
  | .mark s => some s

theorem finiteReal_eq {text : List Char} {x : Float} (known : Decimal.readReal? text = some x) :
    finiteReal text = if x.isFinite = true then .ok (some (.real x)) else .error .literalTooLarge := by
  rw [finiteReal, known]

theorem readReal?_text {l : Lexeme} {x : Float} (formed : l.WellFormed) (real : l.real? = some x) :
    Decimal.readReal? l.text = some x := by
  cases l with
  | whole digits =>
    cases real
    exact Decimal.readReal?_of_digits formed.1 formed.2
  | decimal digits places =>
    cases real
    exact Decimal.readReal?_of_point formed.1.1 formed.1.2 formed.2
  | spacing text => cases real
  | name text => cases real
  | mark s => cases real

theorem readWhole?_text {digits : List Char} (formed : WellFormed (.whole digits)) :
    Decimal.readWhole? digits =
      if (Decimal.valueOf digits : Int) ≤ Whole.greatest then some (Int64.ofInt (Decimal.valueOf digits))
      else none := by
  have lower : Whole.least ≤ (Decimal.valueOf digits : Int) := by
    unfold Whole.least
    omega
  simp only [Decimal.readWhole?_of_digits formed.1 formed.2, Whole.ofInt?, lower, true_and]

theorem isFinite_of_small {digits : List Char} (small : (Decimal.valueOf digits : Int) ≤ Whole.greatest) :
    (Lexeme.whole digits).IsFinite := by
  intro x member
  cases member
  exact Decimal.isFinite_toReal_whole small

theorem symbol_of_isFinite {l : Lexeme} (formed : l.WellFormed) (finite : l.IsFinite) :
    l.pattern.symbol l.text = .ok l.symbol? := by
  have literal {x : Float} (real : l.real? = some x) : finiteReal l.text = .ok (some (.real x)) := by
    rw [finiteReal_eq (readReal?_text formed real), if_pos (finite x real)]
  cases l with
  | spacing text => rfl
  | name text => rfl
  | mark s => rfl
  | decimal digits places => exact literal rfl
  | whole digits =>
    simp only [pattern, text, Pattern.symbol, symbol?, readWhole?_text formed]
    by_cases small : (Decimal.valueOf digits : Int) ≤ Whole.greatest
    · simp only [if_pos small]
    · simp only [if_neg small]
      exact literal rfl

theorem symbol_of_not_isFinite {l : Lexeme} (formed : l.WellFormed) (infinite : ¬ l.IsFinite) :
    l.pattern.symbol l.text = .error .literalTooLarge := by
  have literal {x : Float} (real : l.real? = some x) : finiteReal l.text = .error .literalTooLarge := by
    have past : ¬ x.isFinite = true := by
      intro finite
      refine infinite fun y member => ?_
      cases real.symm.trans member
      exact finite
    rw [finiteReal_eq (readReal?_text formed real), if_neg past]
  cases l with
  | spacing text => exact absurd nofun infinite
  | name text => exact absurd nofun infinite
  | mark s => exact absurd nofun infinite
  | decimal digits places => exact literal rfl
  | whole digits =>
    have past : ¬ (Decimal.valueOf digits : Int) ≤ Whole.greatest := fun small =>
      infinite (isFinite_of_small small)
    simp only [pattern, text, Pattern.symbol, readWhole?_text formed, if_neg past]
    exact literal rfl

end Lexeme

/-- A text cut into longest lexemes up to a rest. -/
inductive Cut : List Char → List Lexeme → List Char → Prop where
  | nil (source : List Char) : Cut source [] source
  | cons {l : Lexeme} {source rest : List Char} {lexemes : List Lexeme} (leads : Leads l (l.text ++ source))
      (following : Cut source lexemes rest) : Cut (l.text ++ source) (l :: lexemes) rest

def tokensOf (position : Nat) : List Lexeme → List Token
  | [] => []
  | l :: lexemes => l.symbol?.toList.map (⟨·, position⟩) ++ tokensOf (position + l.text.length) lexemes

def textOf (lexemes : List Lexeme) : List Char := lexemes.flatMap Lexeme.text

/-- Why a text that is not at its end cannot be scanned. -/
inductive Unscannable : List Char → ParseError.Reason → Prop where
  | unexpectedCharacter {c : Char} {rest : List Char}
      (unknown : ∀ l : Lexeme, l.WellFormed → ¬ l.text <+: c :: rest) :
      Unscannable (c :: rest) (.unexpectedCharacter c)
  | literalTooLarge {l : Lexeme} {source : List Char} (leads : Leads l source) (infinite : ¬ l.IsFinite) :
      Unscannable source .literalTooLarge

variable {position : Nat} {source rest : List Char} {lexemes : List Lexeme}

theorem Cut.eq_append (cut : Cut source lexemes rest) : source = textOf lexemes ++ rest := by
  induction cut with
  | nil source => rfl
  | cons leads following ih =>
    rename_i l source rest lexemes
    change l.text ++ source = l.text ++ textOf lexemes ++ rest
    rw [List.append_assoc, ← ih]

theorem scans_of_leads {l : Lexeme} (position : Nat) (leads : Leads l (l.text ++ rest))
    (finite : l.IsFinite) : Scans position l.text rest (l.symbol?.toList.map (⟨·, position⟩)) :=
  scans_lexeme l.symbol? (longest?_of_leads leads) (Lexeme.symbol_of_isFinite leads.wellFormed finite)

theorem scans_of_cut (position : Nat) (cut : Cut source lexemes rest) (finite : ∀ l ∈ lexemes, l.IsFinite) :
    Scans position (textOf lexemes) rest (tokensOf position lexemes) := by
  induction cut generalizing position with
  | nil source =>
    change scanFrom List.length position source = (scanFrom List.length position source).map _
    cases scanFrom List.length position source <;> rfl
  | cons leads following ih =>
    rename_i l source rest lexemes
    obtain ⟨first, others⟩ := List.forall_mem_cons.mp finite
    rw [following.eq_append] at leads
    exact (scans_of_leads position leads first).append (ih (position + l.text.length) others)

theorem scanFrom_of_cut (cut : Cut source lexemes rest) (finite : ∀ l ∈ lexemes, l.IsFinite) :
    scanFrom List.length position source =
      (scanFrom List.length (position + (textOf lexemes).length) rest).map (tokensOf position lexemes ++ ·) := by
  rw [cut.eq_append]
  exact scans_of_cut position cut finite

theorem scanFrom_of_unscannable {reason : ParseError.Reason} (unscannable : Unscannable source reason) :
    scanFrom List.length position source = .error ⟨reason, position⟩ := by
  cases unscannable with
  | unexpectedCharacter unknown =>
    rename_i c rest
    rcases exists_leads_or_unknown (c :: rest) with ⟨l, leads⟩ | ⟨none, _⟩
    · exact absurd leads.isPrefix (unknown l leads.wellFormed)
    · exact scanFrom_unknown (List.cons_ne_nil c rest) none
  | literalTooLarge leads infinite =>
    rename_i l
    obtain ⟨rest, rfl⟩ := leads.isPrefix
    refine scanFrom_illegible (longest?_of_leads leads) ?_
    rw [List.take_left, Lexeme.symbol_of_not_isFinite leads.wellFormed infinite]

theorem Leads.text_ne_nil {l : Lexeme} (leads : Leads l source) : l.text ≠ [] := by
  intro empty
  have positive := longest?_pos (longest?_of_leads leads)
  rw [empty] at positive
  cases positive

theorem exists_cut (source : List Char) : ∃ lexemes rest, Cut source lexemes rest ∧
    (∀ l ∈ lexemes, l.IsFinite) ∧ (rest = [] ∨ ∃ reason, Unscannable rest reason) := by
  -- a lexeme is not empty, so what is left behind it is shorter
  induction length : source.length using Nat.strongRecOn generalizing source with
  | ind n ih =>
    subst length
    by_cases ended : source = []
    · exact ⟨[], source, .nil source, nofun, .inl ended⟩
    · obtain ⟨c, tail, nonempty⟩ := List.exists_cons_of_ne_nil ended
      rcases exists_leads_or_unknown source with ⟨l, leads⟩ | ⟨_, unknown⟩
      · by_cases finite : l.IsFinite
        · obtain ⟨after, rfl⟩ := leads.isPrefix
          have shorter : after.length < (l.text ++ after).length := by
            have := List.length_pos_iff.mpr leads.text_ne_nil
            rw [List.length_append]
            omega
          obtain ⟨lexemes, rest, cut, allFinite, stops⟩ := ih _ shorter after rfl
          exact ⟨l :: lexemes, rest, .cons leads cut, List.forall_mem_cons.mpr ⟨finite, allFinite⟩, stops⟩
        · exact ⟨[], source, .nil source, nofun, .inr ⟨_, .literalTooLarge leads finite⟩⟩
      · subst nonempty
        exact ⟨[], c :: tail, .nil _, nofun, .inr ⟨_, .unexpectedCharacter unknown⟩⟩

theorem scan_of_cut_end (cut : Cut source lexemes []) (finite : ∀ l ∈ lexemes, l.IsFinite) :
    scan source = .ok (tokensOf 0 lexemes ++ [⟨.done, source.length⟩]) := by
  rw [scan_eq, scanFrom_of_cut cut finite, scanFrom_end]
  simp [Except.map]

theorem scan_of_cut_unscannable {reason : ParseError.Reason} (cut : Cut source lexemes rest)
    (finite : ∀ l ∈ lexemes, l.IsFinite) (unscannable : Unscannable rest reason) :
    scan source = .error ⟨reason, (textOf lexemes).length⟩ := by
  rw [scan_eq, scanFrom_of_cut cut finite, scanFrom_of_unscannable unscannable, Nat.zero_add]
  rfl

theorem exists_cut_of_scan {tokens : List Token} (scans : scan source = .ok tokens) :
    ∃ lexemes, Cut source lexemes [] ∧ (∀ l ∈ lexemes, l.IsFinite) ∧ source = textOf lexemes ∧
      tokens = tokensOf 0 lexemes ++ [⟨.done, source.length⟩] := by
  obtain ⟨lexemes, rest, cut, finite, rfl | ⟨reason, unscannable⟩⟩ := exists_cut source
  · rw [scan_of_cut_end cut finite] at scans
    exact ⟨lexemes, cut, finite, by rw [← List.append_nil (textOf lexemes), ← cut.eq_append],
      (Except.ok.inj scans).symm⟩
  · rw [scan_of_cut_unscannable cut finite unscannable] at scans
    cases scans

theorem Cut.wellFormed (cut : Cut source lexemes rest) : ∀ l ∈ lexemes, l.WellFormed := by
  induction cut with
  | nil source => exact nofun
  | cons leads following ih => exact List.forall_mem_cons.mpr ⟨leads.wellFormed, ih⟩

theorem Lexeme.symbol?_ne_done {l : Lexeme} (formed : l.WellFormed) : l.symbol? ≠ some .done := by
  cases l with
  | spacing text => exact nofun
  | whole digits =>
    unfold symbol?
    dsimp only
    split <;> exact nofun
  | decimal digits places => exact nofun
  | name text => exact nofun
  | mark s =>
    intro done
    cases done
    exact absurd (show Symbol.done ∈ marks from formed) (by decide)

theorem ne_done_of_mem_tokensOf (formed : ∀ l ∈ lexemes, l.WellFormed) :
    ∀ t ∈ tokensOf position lexemes, t.symbol ≠ .done := by
  induction lexemes generalizing position with
  | nil => exact nofun
  | cons l lexemes ih =>
    obtain ⟨first, others⟩ := List.forall_mem_cons.mp formed
    intro t member done
    rcases List.mem_append.mp member with here | later
    · obtain ⟨s, symbol, rfl⟩ := List.mem_map.mp here
      rw [Option.mem_toList] at symbol
      exact Lexeme.symbol?_ne_done first (done ▸ symbol)
    · exact ih others t later done

theorem position_le_of_mem_tokensOf {t : Token} (member : t ∈ tokensOf position lexemes) :
    t.position ≤ position + (textOf lexemes).length := by
  induction lexemes generalizing position with
  | nil => cases member
  | cons l lexemes ih =>
    have total : (textOf (l :: lexemes)).length = l.text.length + (textOf lexemes).length :=
      List.length_append
    rcases List.mem_append.mp member with here | later
    · obtain ⟨s, _, rfl⟩ := List.mem_map.mp here
      exact Nat.le_add_right _ _
    · have := ih later
      omega

theorem position_le_of_scan {tokens : List Token} (scans : scan source = .ok tokens) :
    ∀ t ∈ tokens, t.position ≤ source.length := by
  obtain ⟨lexemes, cut, finite, split, rfl⟩ := exists_cut_of_scan scans
  intro t member
  rcases List.mem_append.mp member with inside | last
  · have bound := position_le_of_mem_tokensOf inside
    rw [← split, Nat.zero_add] at bound
    exact bound
  · rw [List.mem_singleton.mp last]

theorem Unscannable.ne_nil {reason : ParseError.Reason} (unscannable : Unscannable source reason) :
    source ≠ [] := by
  cases unscannable with
  | unexpectedCharacter unknown => exact List.cons_ne_nil _ _
  | literalTooLarge leads infinite =>
    rintro rfl
    exact leads.text_ne_nil (List.prefix_nil.mp leads.isPrefix)

theorem position_lt_of_scan {e : ParseError} (fails : scan source = .error e) :
    e.position < source.length := by
  obtain ⟨lexemes, rest, cut, finite, rfl | ⟨reason, unscannable⟩⟩ := exists_cut source
  · rw [scan_of_cut_end cut finite] at fails
    cases fails
  · have split := congrArg List.length cut.eq_append
    have more := List.length_pos_iff.mpr unscannable.ne_nil
    rw [List.length_append] at split
    rw [scan_of_cut_unscannable cut finite unscannable] at fails
    cases fails
    change (textOf lexemes).length < source.length
    omega

/-- The tokens of a text are those of the longest lexemes it is cut into, and the end. Scanning fails where
no lexeme begins and at the first literal that is no finite real. -/
theorem scan_longest_lexemes (source : List Char) :
    (∀ tokens, scan source = .ok tokens ↔
      ∃ lexemes, Cut source lexemes [] ∧ (∀ l ∈ lexemes, l.IsFinite) ∧
        tokens = tokensOf 0 lexemes ++ [⟨.done, source.length⟩] ∧
        ∀ t ∈ tokensOf 0 lexemes, t.symbol ≠ .done) ∧
    ∀ e, scan source = .error e ↔
      ∃ lexemes rest, Cut source lexemes rest ∧ (∀ l ∈ lexemes, l.IsFinite) ∧
        Unscannable rest e.reason ∧ e.position = (textOf lexemes).length := by
  obtain ⟨known, stop, knownCut, knownFinite, stops⟩ := exists_cut source
  refine ⟨fun tokens => ⟨fun scans => ?_, ?_⟩, fun e => ⟨fun fails => ?_, ?_⟩⟩
  · rcases stops with rfl | ⟨reason, unscannable⟩
    · rw [scan_of_cut_end knownCut knownFinite] at scans
      have formed := knownCut.wellFormed
      exact ⟨known, knownCut, knownFinite, (Except.ok.inj scans).symm, ne_done_of_mem_tokensOf formed⟩
    · rw [scan_of_cut_unscannable knownCut knownFinite unscannable] at scans
      cases scans
  · rintro ⟨lexemes, cut, finite, rfl, _⟩
    exact scan_of_cut_end cut finite
  · rcases stops with rfl | ⟨reason, unscannable⟩
    · rw [scan_of_cut_end knownCut knownFinite] at fails
      cases fails
    · rw [scan_of_cut_unscannable knownCut knownFinite unscannable] at fails
      cases fails
      exact ⟨known, stop, knownCut, knownFinite, unscannable, rfl⟩
  · rintro ⟨lexemes, rest, cut, finite, unscannable, position⟩
    rw [scan_of_cut_unscannable cut finite unscannable, ← position]

/-- A name takes an `n` that no root sign would have left to it, and `**` is one lexeme. -/
example : scan "nn√5.**ⁿ√ π".toList =
    .ok [⟨.name "nn", 0⟩, ⟨.name "√", 2⟩, ⟨.real 5, 3⟩, ⟨.doubleStar, 5⟩, ⟨.name "ⁿ√", 7⟩, ⟨.name "π", 10⟩,
      ⟨.done, 11⟩] := by decide +kernel

end Calculator.Token
