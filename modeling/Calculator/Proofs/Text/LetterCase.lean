import Calculator.Text.Fold
import Calculator.Text.Word

namespace Calculator.Text

def small (text : List Char) : List Char := text.map Char.toLower

def inSmall (text : String) : String := String.ofList (small text.toList)

def capitals : List Char :=
  ['A', 'B', 'C', 'D', 'E', 'F', 'G', 'H', 'I', 'J', 'K', 'L', 'M', 'N', 'O', 'P', 'Q', 'R', 'S', 'T', 'U', 'V',
    'W', 'X', 'Y', 'Z']

variable {α : Type} {c : Char} {text : List Char}

theorem mem_capitals_of_isUpper (upper : c.isUpper = true) : c ∈ capitals := by
  have known : (List.range 26).all (fun k => decide (Char.ofNat (65 + k) ∈ capitals)) = true := by decide
  have range : 65 ≤ c.toNat ∧ c.toNat ≤ 90 := by
    delta Char.isUpper at upper
    simpa [UInt32.le_iff_toNat_le] using upper
  have found := List.all_eq_true.mp known (c.toNat - 65) (List.mem_range.mpr (by omega))
  rw [Nat.add_sub_cancel' range.1, Char.ofNat_toNat] at found
  exact of_decide_eq_true found

theorem toLower_of_not_isUpper (other : c.isUpper = false) : c.toLower = c := by
  delta Char.toLower
  refine dif_neg fun range => ?_
  delta Char.isUpper at other
  exact of_decide_eq_false other range

theorem comp_toLower [DecidableEq α] {f : Char → α}
    (same : capitals.all (fun c => decide (f c.toLower = f c)) = true) : f ∘ Char.toLower = f := by
  funext c
  cases upper : c.isUpper with
  | true => exact of_decide_eq_true (List.all_eq_true.mp same c (mem_capitals_of_isUpper upper))
  | false => exact congrArg f (toLower_of_not_isUpper upper)

theorem toLower_toLower : Char.toLower ∘ Char.toLower = Char.toLower := comp_toLower (by decide)

theorem isWord_toLower : isWord ∘ Char.toLower = isWord := comp_toLower (by decide +kernel)

theorem foldChar_toLower : foldChar ∘ Char.toLower = foldChar := comp_toLower (by decide)

theorem isDigit_toLower : Char.isDigit ∘ Char.toLower = Char.isDigit := comp_toLower (by decide)

theorem toLower_eq_iff {d : Char} (other : d.isAlpha = false) : c.toLower = d ↔ c = d := by
  cases upper : c.isUpper with
  | false => rw [toLower_of_not_isUpper upper]
  | true =>
    have known : capitals.all (fun c => c.isAlpha && c.toLower.isAlpha) = true := by decide
    have letters := List.all_eq_true.mp known c (mem_capitals_of_isUpper upper)
    rw [Bool.and_eq_true] at letters
    constructor
    · rintro rfl
      rw [letters.2] at other
      cases other
    · rintro rfl
      rw [letters.1] at other
      cases other

theorem small_append (text text' : List Char) : small (text ++ text') = small text ++ small text' :=
  List.map_append

theorem length_small (text : List Char) : (small text).length = text.length := List.length_map _

theorem take_small (n : Nat) (text : List Char) : (small text).take n = small (text.take n) :=
  List.map_take.symm

theorem drop_small (n : Nat) (text : List Char) : (small text).drop n = small (text.drop n) :=
  List.map_drop.symm

theorem takeWhile_small {p : Char → Bool} (blind : p ∘ Char.toLower = p) (text : List Char) :
    (small text).takeWhile p = small (text.takeWhile p) := by
  rw [small, List.takeWhile_map, blind, small]

theorem dropWhile_small {p : Char → Bool} (blind : p ∘ Char.toLower = p) (text : List Char) :
    (small text).dropWhile p = small (text.dropWhile p) := by
  rw [small, List.dropWhile_map, blind, small]

theorem fold_small (text : List Char) : fold (small text) = fold text := by
  rw [fold, small, List.map_map, foldChar_toLower, fold]

theorem inSmall_inSmall (text : String) : inSmall (inSmall text) = inSmall text := by
  rw [inSmall, inSmall, String.toList_ofList, small, small, List.map_map, toLower_toLower]

theorem foldName_inSmall (text : String) : foldName (inSmall text) = foldName text := by
  rw [foldName, inSmall, String.toList_ofList, fold_small, foldName]

theorem foldName_of_inSmall {name name' : String} (same : inSmall name' = inSmall name) :
    foldName name' = foldName name := by
  rw [← foldName_inSmall name', same, foldName_inSmall]

theorem all_small {p : Char → Bool} (blind : p ∘ Char.toLower = p) (text : List Char) :
    (small text).all p = text.all p := by
  rw [small, List.all_map, blind]

theorem getElem?_small_eq_iff {d : Char} (other : d.isAlpha = false) (i : Nat) :
    (small text)[i]? = some d ↔ text[i]? = some d := by
  rw [small, List.getElem?_map]
  cases text[i]? with
  | none => simp
  | some c => simpa using toLower_eq_iff other

theorem small_of_all {p : Char → Bool} (plain : capitals.all (fun c => !p c) = true)
    (inside : text.all p = true) : small text = text := by
  have same : ∀ c ∈ text, c.toLower = c := by
    intro c member
    cases upper : c.isUpper with
    | false => exact toLower_of_not_isUpper upper
    | true =>
      have outside := List.all_eq_true.mp plain c (mem_capitals_of_isUpper upper)
      rw [List.all_eq_true.mp inside c member] at outside
      cases outside
  exact (List.map_congr_left same).trans (List.map_id text)

end Calculator.Text
