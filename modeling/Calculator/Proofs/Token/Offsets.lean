import Calculator.Token.Scan

namespace Calculator.Token

section Bytes

theorem byteSize_append (front rest : List Char) : byteSize (front ++ rest) = byteSize front + byteSize rest := by
  induction front with
  | nil => exact (Nat.zero_add _).symm
  | cons c front ih => rw [List.cons_append, byteSize, byteSize, ih, Nat.add_assoc]

theorem frontOfBytes?_append (front rest : List Char) :
    frontOfBytes? (front ++ rest) (byteSize front) = some front := by
  induction front with
  | nil => cases rest <;> rfl
  | cons c front ih =>
    have nonzero : byteSize (c :: front) ≠ 0 := by
      have := c.utf8Size_pos
      rw [byteSize]
      omega
    rw [List.cons_append, frontOfBytes?, if_neg nonzero]
    simp only [byteSize, Nat.le_add_right, if_true, Nat.add_sub_cancel_left, ih, Option.map_some]

/-- What stands behind a text begins at the byte before which there are the characters of that text. -/
theorem charOffset_append (front rest : List Char) :
    charOffset (front ++ rest) (byteSize front) = front.length := by
  rw [charOffset, frontOfBytes?_append]
  rfl

end Bytes

section Steps

variable {size : List Char → Nat} {offset : Nat} {source : List Char} {pattern : Pattern} {length : Nat}

theorem scanFrom_end : scanFrom size offset [] = .ok [] := by
  rw [scanFrom]
  rfl

theorem scanFrom_unknown (nonempty : source ≠ []) (unknown : longest? source = none) :
    scanFrom size offset source = .error ⟨.unexpectedCharacter (source.head nonempty), offset⟩ := by
  rw [scanFrom, dif_neg nonempty]
  split
  · rfl
  · rename_i found
    rw [unknown] at found
    cases found

theorem scanFrom_found (found : longest? source = some (pattern, length)) :
    scanFrom size offset source =
      match pattern.symbol (source.take length) with
      | .error reason => .error ⟨reason, offset⟩
      | .ok symbol? =>
        (scanFrom size (offset + size (source.take length)) (source.drop length)).map
          (symbol?.toList.map (⟨·, offset⟩) ++ ·) := by
  have nonempty : source ≠ [] := by
    rintro rfl
    cases found
  rw [scanFrom, dif_neg nonempty]
  split
  · rename_i unknown
    rw [found] at unknown
    cases unknown
  · rename_i known
    rw [found] at known
    cases known
    cases pattern.symbol (source.take length) with
    | error reason => rfl
    | ok symbol? => cases symbol? <;> rfl

theorem scanFrom_illegible {reason : ParseError.Reason} (found : longest? source = some (pattern, length))
    (illegible : pattern.symbol (source.take length) = .error reason) :
    scanFrom size offset source = .error ⟨reason, offset⟩ := by
  rw [scanFrom_found found, illegible]

theorem scanFrom_legible {symbol? : Option Symbol} (found : longest? source = some (pattern, length))
    (legible : pattern.symbol (source.take length) = .ok symbol?) :
    scanFrom size offset source = (scanFrom size (offset + size (source.take length)) (source.drop length)).map
      (symbol?.toList.map (⟨·, offset⟩) ++ ·) := by
  rw [scanFrom_found found, legible]

end Steps

/-- The bytes before a lexeme make its place, the characters before it. -/
theorem atOffsets_scanFrom {source front rest : List Char} {bytes : Nat} (split : source = front ++ rest)
    (sized : bytes = byteSize front) :
    atOffsets (charOffset source) (scanFrom byteSize bytes rest) = scanFrom List.length front.length rest := by
  have here {front rest : List Char} {bytes : Nat} (split : source = front ++ rest) (sized : bytes = byteSize front) :
      charOffset source bytes = front.length := by
    rw [split, sized, charOffset_append]
  fun_induction scanFrom byteSize bytes rest generalizing front with
  | case1 bytes => exact scanFrom_end.symm
  | case2 bytes rest nonempty unknown =>
    rw [scanFrom_unknown nonempty unknown, atOffsets, here split sized]
  | case3 bytes rest nonempty pattern length found reason illegible =>
    rw [scanFrom_illegible found illegible, atOffsets, here split sized]
  | case4 bytes rest nonempty pattern length found symbol? legible _ ih =>
    have split' : source = (front ++ rest.take length) ++ rest.drop length := by
      rw [split, List.append_assoc, List.take_append_drop]
    have onward := ih split' (by rw [sized, byteSize_append])
    rw [List.length_append] at onward
    rw [scanFrom_legible found legible, ← onward]
    cases scanFrom byteSize (bytes + byteSize (rest.take length)) (rest.drop length) with
    | error e => rfl
    | ok following =>
      cases symbol? with
      | none => rfl
      | some s =>
        have place := here split sized
        simp [atOffsets, Except.map, place]

theorem scan_eq (source : List Char) :
    scan source = (scanFrom List.length 0 source).map (· ++ [⟨.done, source.length⟩]) := by
  have offsets : atOffsets (charOffset source) (scanFrom byteSize 0 source) = scanFrom List.length 0 source :=
    atOffsets_scanFrom (List.nil_append source).symm rfl
  rw [scan, offsets]

end Calculator.Token
