import Calculator.Proofs.Formula.Words

namespace Calculator.Formula

open Text (isWord fold takeWhile_run dropWhile_run leaves_cons leaves_dropWhile)

def IsArgument (text : List Char) : Prop := text ≠ [] ∧ ∀ c ∈ text, endsArgument c = false

theorem comma_not_mem_argument {text : List Char} (argument : IsArgument text) : ',' ∉ text :=
  fun member => absurd (argument.2 ',' member) (by decide)

/-- A text begins with a call, and the comma between the arguments is at an offset in it. -/
def BeginsCall (text : List Char) (offset : Nat) : Prop :=
  ∃ name first second rest, text = name ++ '(' :: (first ++ ',' :: (second ++ ')' :: rest)) ∧
    fold name ∈ namesWithSeparator ∧ IsArgument first ∧ IsArgument second ∧
    offset = name.length + 1 + first.length

/-- The comma at a place of a text separates the arguments of a call that begins in it, the call not being
part of a longer word. `before` is the character before the text. -/
def SeparatesArguments (before : Option Char) (text : List Char) (i : Nat) : Prop :=
  ∃ front rest offset, text = front ++ rest ∧ BeginsCall rest offset ∧
    (front.getLast?.or before).any isWord = false ∧ i = front.length + offset

theorem eq_of_prefix_of_listed :
    ∀ a ∈ namesWithSeparator, ∀ b ∈ namesWithSeparator, a <+: b → a = b := by decide

theorem prefix_fold_iff {name text : List Char} :
    name.isPrefixOf (fold (text.take name.length)) = true ↔ name <+: fold text := by
  rw [List.isPrefixOf_iff_prefix, fold, List.map_take, List.prefix_take_iff]
  exact and_iff_left (Nat.le_refl _)

theorem listed_of_find? {text listed : List Char}
    (found : namesWithSeparator.find? (fun name => name.isPrefixOf (fold (text.take name.length))) =
      some listed) : listed ∈ namesWithSeparator ∧ listed <+: fold text := by
  have begins := List.find?_some found
  exact ⟨List.mem_of_find?_eq_some found, prefix_fold_iff.mp begins⟩

theorem nameLength?_eq_some_iff {text : List Char} {n : Nat} :
    nameLength? text = some n ↔
      ∃ name rest, text = name ++ rest ∧ fold name ∈ namesWithSeparator ∧ n = name.length := by
  unfold nameLength?
  rw [Option.map_eq_some_iff]
  constructor
  · rintro ⟨listed, found, rfl⟩
    obtain ⟨isListed, isPrefix⟩ := listed_of_find? found
    have folded : fold (text.take listed.length) = listed := by
      rw [fold, List.map_take]
      exact (List.prefix_iff_eq_take.mp isPrefix).symm
    have length := congrArg List.length folded
    rw [fold, List.length_map] at length
    have split := (List.take_append_drop listed.length text).symm
    exact ⟨_, _, split, folded.symm ▸ isListed, length.symm⟩
  · rintro ⟨name, rest, rfl, listed, rfl⟩
    have begins : fold name <+: fold (name ++ rest) := by
      rw [fold, fold, List.map_append]
      exact List.prefix_append _ _
    have length : (fold name).length = name.length := List.length_map _
    cases found : namesWithSeparator.find? fun listed =>
      listed.isPrefixOf (fold ((name ++ rest).take listed.length)) with
    | none =>
      have absent := List.find?_eq_none.mp found (fold name) listed
      exact absurd (prefix_fold_iff.mpr begins) absent
    | some other =>
      -- no listed name begins another, so the search cannot stop at the wrong one
      obtain ⟨otherListed, otherBegins⟩ := listed_of_find? found
      refine ⟨other, rfl, ?_⟩
      rcases List.prefix_or_prefix_of_prefix otherBegins begins with inside | inside
      · rw [eq_of_prefix_of_listed other otherListed _ listed inside, length]
      · rw [← eq_of_prefix_of_listed _ listed other otherListed inside, length]

theorem argumentLength_append {argument : List Char} {c : Char} (rest : List Char)
    (inside : ∀ d ∈ argument, endsArgument d = false) (ends : endsArgument c = true) :
    argumentLength (argument ++ c :: rest) = argument.length := by
  rw [argumentLength, takeWhile_run (by simpa using inside) (leaves_cons.mpr (by simp [ends]))]

theorem exists_argument_of_getElem? {text : List Char} {c : Char}
    (ends : text[argumentLength text]? = some c) :
    ∃ argument rest, text = argument ++ c :: rest ∧ (∀ d ∈ argument, endsArgument d = false) ∧
      argumentLength text = argument.length := by
  have inside : ∀ d ∈ text.takeWhile (fun c => !endsArgument c), endsArgument d = false := by
    intro d member
    simpa using List.all_eq_true.mp List.all_takeWhile d member
  have split := List.takeWhile_append_dropWhile (p := fun c => !endsArgument c) (l := text)
  unfold argumentLength at ends ⊢
  generalize text.takeWhile (fun c => !endsArgument c) = argument at *
  generalize text.dropWhile (fun c => !endsArgument c) = rest at *
  subst split
  rw [List.getElem?_append_right (Nat.le_refl _), Nat.sub_self, ← List.head?_eq_getElem?] at ends
  obtain ⟨tail, rfl⟩ := List.head?_eq_some_iff.mp ends
  exact ⟨argument, tail, rfl, inside, rfl⟩

theorem drop_behind (front rest : List Char) (c : Char) (k : Nat) :
    (front ++ c :: rest).drop (front.length + 1 + k) = rest.drop k := by
  rw [Nat.add_assoc, ← List.drop_drop, List.drop_left, Nat.add_comm, List.drop_succ_cons]

theorem getElem?_behind (front rest : List Char) (c : Char) (k : Nat) :
    (front ++ c :: rest)[front.length + 1 + k]? = rest[k]? := by
  have dropped := congrArg (·[0]?) (drop_behind front rest c k)
  simpa using dropped

theorem separatorOffset?_open {name body : List Char} (listed : fold name ∈ namesWithSeparator) :
    separatorOffset? (name ++ '(' :: body) =
      let first := argumentLength body
      let second := argumentLength (body.drop (first + 1))
      if 0 < first ∧ body[first]? = some ',' ∧ 0 < second ∧ body[first + 1 + second]? = some ')' then
        some (name.length + 1 + first)
      else none := by
  have known : nameLength? (name ++ '(' :: body) = some name.length :=
    nameLength?_eq_some_iff.mpr ⟨name, _, rfl, listed, rfl⟩
  have opens : (name ++ '(' :: body)[name.length]? = some '(' := by simp
  have behind := drop_behind name body '(' 0
  rw [Nat.add_zero, List.drop_zero] at behind
  simp only [separatorOffset?, known, Option.bind_eq_bind, Option.bind_some, behind, opens, true_and]
  have comma (k : Nat) : name.length + 1 + k + 1 = name.length + 1 + (k + 1) := rfl
  have close (k l : Nat) : name.length + 1 + (k + 1) + l = name.length + 1 + (k + 1 + l) :=
    Nat.add_assoc _ _ _
  simp only [comma, close, drop_behind, getElem?_behind]

theorem separatorOffset?_eq_some_iff {text : List Char} {offset : Nat} :
    separatorOffset? text = some offset ↔ BeginsCall text offset := by
  constructor
  · intro found
    have named : ∃ name rest, text = name ++ rest ∧ fold name ∈ namesWithSeparator ∧
        rest.head? = some '(' := by
      simp only [separatorOffset?, Option.bind_eq_bind, Option.bind_eq_some_iff] at found
      obtain ⟨n, known, found⟩ := found
      obtain ⟨name, rest, rfl, listed, rfl⟩ := nameLength?_eq_some_iff.mp known
      split at found
      · rename_i call
        have opens := call.1
        rw [List.getElem?_append_right (Nat.le_refl _), Nat.sub_self, ← List.head?_eq_getElem?] at opens
        exact ⟨name, rest, rfl, listed, opens⟩
      · cases found
    obtain ⟨name, rest, rfl, listed, opens⟩ := named
    obtain ⟨body, rfl⟩ := List.head?_eq_some_iff.mp opens
    rw [separatorOffset?_open listed] at found
    dsimp only at found
    split at found
    · rename_i call
      cases found
      obtain ⟨firstNonempty, comma, secondNonempty, closes⟩ := call
      obtain ⟨first, rest, rfl, firstInside, firstLength⟩ := exists_argument_of_getElem? comma
      have behind := drop_behind first rest ',' 0
      rw [Nat.add_zero, List.drop_zero] at behind
      rw [firstLength, behind] at secondNonempty
      rw [firstLength, behind, getElem?_behind] at closes
      obtain ⟨second, rest, rfl, secondInside, secondLength⟩ := exists_argument_of_getElem? closes
      rw [firstLength] at firstNonempty ⊢
      rw [secondLength] at secondNonempty
      exact ⟨name, first, second, rest, rfl, listed, ⟨List.length_pos_iff.mp firstNonempty, firstInside⟩,
        ⟨List.length_pos_iff.mp secondNonempty, secondInside⟩, rfl⟩
    · cases found
  · rintro ⟨name, first, second, rest, rfl, listed, firstArgument, secondArgument, rfl⟩
    have firstLength := argumentLength_append (c := ',') (second ++ ')' :: rest) firstArgument.2 rfl
    have secondLength := argumentLength_append (c := ')') rest secondArgument.2 rfl
    have behind := drop_behind first (second ++ ')' :: rest) ',' 0
    rw [Nat.add_zero, List.drop_zero] at behind
    have firstNonempty := List.length_pos_iff.mpr firstArgument.1
    have secondNonempty := List.length_pos_iff.mpr secondArgument.1
    rw [separatorOffset?_open listed]
    dsimp only
    rw [firstLength, behind, secondLength, getElem?_behind, if_pos]
    exact ⟨firstNonempty, by simp, secondNonempty, by simp⟩

theorem comma_not_mem_name {name : List Char} (listed : fold name ∈ namesWithSeparator) : ',' ∉ name := by
  intro member
  have folded : ',' ∈ fold name := List.mem_map.mpr ⟨',', member, by decide⟩
  have apart : ∀ listed ∈ namesWithSeparator, ',' ∉ listed := by decide
  exact apart _ listed folded

theorem BeginsCall.comma {text : List Char} {offset : Nat} (call : BeginsCall text offset) :
    ∃ taken rest, text = taken ++ ',' :: rest ∧ ',' ∉ taken ∧ taken ≠ [] ∧ offset = taken.length := by
  obtain ⟨name, first, second, rest, rfl, listed, firstArgument, secondArgument, rfl⟩ := call
  refine ⟨name ++ '(' :: first, second ++ ')' :: rest, by simp, ?_, by simp, by simp; omega⟩
  intro member
  rcases List.mem_append.mp member with member | member
  · exact comma_not_mem_name listed member
  · rcases List.mem_cons.mp member with same | member
    · exact absurd same (by decide)
    · exact comma_not_mem_argument firstArgument member

theorem BeginsCall.offset_eq {rest : List Char} {offset : Nat} (taken : List Char) (plain : ',' ∉ taken)
    (call : BeginsCall (taken ++ ',' :: rest) offset) : offset = taken.length ∧ taken ≠ [] := by
  obtain ⟨taken', rest', same, plain', nonempty, rfl⟩ := call.comma
  have before {run : List Char} (plain : ',' ∉ run) : ∀ c ∈ run, (c != ',') = true := by
    intro c member
    have other : c ≠ ',' := fun comma => plain (comma ▸ member)
    simpa using other
  have ends {after : List Char} : Text.Leaves (· != ',') (',' :: after) := leaves_cons.mpr rfl
  have run := congrArg (List.takeWhile (· != ',')) same
  rw [takeWhile_run (before plain) ends, takeWhile_run (before plain') ends] at run
  exact ⟨by rw [run], run ▸ nonempty⟩

variable {before : Option Char} {c : Char} {rest : List Char} {i : Nat}

theorem getLast?_cons_or (c : Char) (front : List Char) (before : Option Char) :
    (c :: front).getLast?.or before = front.getLast?.or (some c) := by
  cases front with
  | nil => rfl
  | cons d front =>
    rw [List.getLast?_cons_cons]
    cases last : (d :: front).getLast? with
    | none => exact absurd (List.getLast?_eq_none_iff.mp last) (by simp)
    | some e => rfl

theorem separatesArguments_cons : SeparatesArguments before (c :: rest) i ↔
    (before.any isWord = false ∧ BeginsCall (c :: rest) i) ∨
      ∃ j, SeparatesArguments (some c) rest j ∧ i = j + 1 := by
  constructor
  · rintro ⟨front, after, offset, split, call, word, rfl⟩
    cases front with
    | nil =>
      obtain rfl : c :: rest = after := split
      rw [List.length_nil, Nat.zero_add]
      exact .inl ⟨word, call⟩
    | cons d front =>
      obtain ⟨rfl, rfl⟩ := List.cons.inj split
      rw [getLast?_cons_or] at word
      exact .inr ⟨front.length + offset, ⟨front, after, offset, rfl, call, word, rfl⟩, by
        rw [List.length_cons]
        omega⟩
  · rintro (⟨word, call⟩ | ⟨j, ⟨front, after, offset, rfl, call, word, rfl⟩, rfl⟩)
    · exact ⟨[], c :: rest, i, rfl, call, word, by simp⟩
    · refine ⟨c :: front, after, offset, rfl, call, ?_, ?_⟩
      · rw [getLast?_cons_or]
        exact word
      · rw [List.length_cons]
        omega

theorem separatesArguments_nil : ¬ SeparatesArguments before [] i := by
  rintro ⟨front, after, offset, split, call, _⟩
  obtain ⟨taken, rest, same, _⟩ := call.comma
  rw [same] at split
  simp at split

theorem separatesArguments_comma {taken : List Char} (plain : ',' ∉ taken) :
    SeparatesArguments before (taken ++ ',' :: rest) i →
      i = taken.length ∨ ∃ j, SeparatesArguments (some ',') rest j ∧ i = taken.length + 1 + j := by
  -- a call has no comma before the separating one, so one that begins before a comma separates at that comma
  intro separates
  induction taken generalizing before i with
  | nil =>
    rcases separatesArguments_cons.mp separates with ⟨_, call⟩ | ⟨j, later, rfl⟩
    · exact absurd rfl (BeginsCall.offset_eq [] nofun call).2
    · exact .inr ⟨j, later, by rw [List.length_nil]; omega⟩
  | cons d taken ih =>
    rcases separatesArguments_cons.mp separates with ⟨_, call⟩ | ⟨j, later, rfl⟩
    · exact .inl (BeginsCall.offset_eq (d :: taken) plain call).1
    · rcases ih (fun member => plain (List.mem_cons_of_mem _ member)) later with rfl | ⟨k, behind, rfl⟩
      · exact .inl rfl
      · exact .inr ⟨k, behind, by rw [List.length_cons]; omega⟩

theorem SeparatesArguments.behind {j : Nat} (separates : SeparatesArguments (some c) rest j)
    (taken : List Char) : SeparatesArguments before (taken ++ c :: rest) (taken.length + 1 + j) := by
  induction taken generalizing before with
  | nil => exact separatesArguments_cons.mpr (.inr ⟨j, separates, by rw [List.length_nil]; omega⟩)
  | cons d taken ih => exact separatesArguments_cons.mpr (.inr ⟨_, ih, by rw [List.length_cons]; omega⟩)

theorem SeparatesArguments.congr {other : Option Char} (separates : SeparatesArguments before rest i)
    (same : before.any isWord = other.any isWord) : SeparatesArguments other rest i := by
  obtain ⟨front, after, offset, rfl, call, word, rfl⟩ := separates
  refine ⟨front, after, offset, rfl, call, ?_, rfl⟩
  cases last : front.getLast? with
  | some d =>
    rw [last] at word
    exact word
  | none =>
    rw [last, Option.none_or] at word
    rw [Option.none_or, ← same]
    exact word

theorem isWord_comma : isWord ',' = false := by decide

def MarkedAt (before : Option Char) (text marked : List Char) (i : Nat) : Prop :=
  (SeparatesArguments before text i → marked[i]? = some separatorMark) ∧
    (¬ SeparatesArguments before text i → marked[i]? = text[i]?)

theorem markedAt_plain {marked : List Char}
    (noCall : before.any isWord = false → ∀ k, ¬ BeginsCall (c :: rest) k)
    (ih : ∀ i, MarkedAt (some c) rest marked i) : MarkedAt before (c :: rest) (c :: marked) i := by
  have later (i : Nat) : SeparatesArguments before (c :: rest) i ↔
      ∃ j, SeparatesArguments (some c) rest j ∧ i = j + 1 := by
    rw [separatesArguments_cons]
    exact or_iff_right fun ⟨word, call⟩ => noCall word _ call
  cases i with
  | zero =>
    refine ⟨fun separates => ?_, fun _ => rfl⟩
    obtain ⟨j, _, position⟩ := (later 0).mp separates
    omega
  | succ i =>
    have next : SeparatesArguments before (c :: rest) (i + 1) ↔ SeparatesArguments (some c) rest i := by
      rw [later]
      constructor
      · rintro ⟨j, separates, position⟩
        obtain rfl : i = j := by omega
        exact separates
      · exact fun separates => ⟨i, separates, rfl⟩
    rw [MarkedAt, next]
    exact ih i

theorem markedAt_call {taken marked : List Char} (plain : ',' ∉ taken) (word : before.any isWord = false)
    (call : BeginsCall (taken ++ ',' :: rest) taken.length)
    (ih : ∀ i, MarkedAt (some separatorMark) rest marked i) :
    MarkedAt before (taken ++ ',' :: rest) (taken ++ separatorMark :: marked) i := by
  have nonWord : (some separatorMark).any isWord = (some ',').any isWord := by
    rw [Option.any_some, Option.any_some, isWord_separatorMark, isWord_comma]
  rcases Nat.lt_trichotomy i taken.length with inside | rfl | behind
  · refine ⟨fun separates => ?_, fun _ => ?_⟩
    · rcases separatesArguments_comma plain separates with same | ⟨j, _, position⟩ <;> omega
    · rw [List.getElem?_append_left inside, List.getElem?_append_left inside]
  · have separates : SeparatesArguments before (taken ++ ',' :: rest) taken.length :=
      ⟨[], _, _, rfl, call, word, by simp⟩
    exact ⟨fun _ => by simp, fun otherwise => absurd separates otherwise⟩
  · obtain ⟨j, rfl⟩ := Nat.exists_eq_add_of_lt behind
    have position : taken.length + j + 1 = taken.length + 1 + j := by omega
    rw [position, MarkedAt, getElem?_behind, getElem?_behind]
    have next : SeparatesArguments before (taken ++ ',' :: rest) (taken.length + 1 + j) ↔
        SeparatesArguments (some separatorMark) rest j := by
      constructor
      · intro separates
        rcases separatesArguments_comma plain separates with same | ⟨k, later, position⟩
        · omega
        · obtain rfl : j = k := by omega
          exact later.congr nonWord.symm
      · exact fun separates => (separates.congr nonWord).behind taken
    rw [next]
    exact ih j

theorem markedAt_markFrom (before : Option Char) (text : List Char) (i : Nat) :
    MarkedAt before text (markFrom before text) i := by
  fun_induction markFrom before text generalizing i with
  | case1 before => exact ⟨fun separates => absurd separates separatesArguments_nil, fun _ => rfl⟩
  | case2 before c rest offset comma found ih =>
    have word : before.any isWord = false := by
      cases word : before.any isWord with
      | false => rfl
      | true => simp [offset, word] at found
    simp only [offset, word, Bool.false_eq_true, dite_false, separatorOffset?_eq_some_iff] at found
    obtain ⟨taken, after, same, plain, nonempty, rfl⟩ := found.comma
    have behind : rest.drop taken.length = after := by
      have dropped := drop_behind taken after ',' 0
      rw [← same, Nat.add_zero, List.drop_succ_cons, List.drop_zero] at dropped
      exact dropped
    -- the scan goes on behind the comma, and no call that begins before it was passed over
    rw [same] at found
    rw [behind] at ih
    rw [same, List.take_left, behind]
    exact markedAt_call plain word found ih
  | case3 before c rest offset none ih =>
    refine markedAt_plain (fun word k call => ?_) ih
    rw [← separatorOffset?_eq_some_iff] at call
    simp [offset, word, call] at none

theorem length_markFrom (before : Option Char) (text : List Char) :
    (markFrom before text).length = text.length := by
  fun_induction markFrom before text with
  | case1 before => rfl
  | case2 before c rest offset comma found ih =>
    have call : separatorOffset? (c :: rest) = some comma := by
      cases word : before.any isWord <;> simp [offset, word] at found
      exact found
    have inside := (List.getElem?_eq_some_iff.mp (getElem?_of_separatorOffset? call)).1
    simp only [List.length_append, List.length_take, List.length_cons, ih, List.length_drop] at inside ⊢
    omega
  | case3 before c rest offset none ih => rw [List.length_cons, List.length_cons, ih]

end Calculator.Formula
