namespace Calculator.Text

def Leaves (p : Char → Bool) (text : List Char) : Prop := ∀ c ∈ text.head?, p c = false

theorem leaves_nil (p : Char → Bool) : Leaves p [] := fun _ member => by cases member

theorem leaves_cons {p : Char → Bool} {c : Char} {text : List Char} :
    Leaves p (c :: text) ↔ p c = false := by
  simp [Leaves]

theorem takeWhile_of_leaves {p : Char → Bool} {text : List Char} (leaves : Leaves p text) :
    text.takeWhile p = [] := by
  cases text with
  | nil => rfl
  | cons c text => simp [leaves_cons.mp leaves]

theorem takeWhile_run {p : Char → Bool} {run rest : List Char} (inside : ∀ c ∈ run, p c = true)
    (leaves : Leaves p rest) : (run ++ rest).takeWhile p = run := by
  rw [List.takeWhile_append_of_pos inside, takeWhile_of_leaves leaves, List.append_nil]

theorem dropWhile_run {p : Char → Bool} {run rest : List Char} (inside : ∀ c ∈ run, p c = true)
    (leaves : Leaves p rest) : (run ++ rest).dropWhile p = rest := by
  rw [List.dropWhile_append_of_pos inside]
  cases rest with
  | nil => rfl
  | cons c rest => simp [leaves_cons.mp leaves]

theorem leaves_dropWhile {p : Char → Bool} {text : List Char} : Leaves p (text.dropWhile p) := by
  intro c first
  have stops := List.head?_dropWhile_not p text
  rw [Option.mem_def.mp first] at stops
  simpa using stops

section FirstRun

variable {p : Char → Bool} {c : Char} {rest : List Char}

theorem forall_mem_firstRun (begins : p c = true) : ∀ d ∈ c :: rest.takeWhile p, p d = true :=
  List.forall_mem_cons.mpr ⟨begins, List.all_eq_true.mp List.all_takeWhile⟩

theorem firstRun_append : (c :: rest.takeWhile p) ++ rest.dropWhile p = c :: rest := by
  rw [List.cons_append, List.takeWhile_append_dropWhile]

end FirstRun

end Calculator.Text
