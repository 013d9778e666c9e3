import TileWorld.Wire.Read

/-!
# What is read stands there

What a read gives back is written, byte for byte, where the reader stood: `ofFrame_eq_ok_iff` for
the opcode of a frame, `fst_coordinates_eq_ok_iff` for a pair of coordinates and
`fst_text_eq_ok_iff` for a text. `fst_text_eq_error_iff` says what can be wrong with a text.
-/

namespace TileWorld

namespace Reader

theorem take_of_le {r : Reader} {n : Nat} (h : n ≤ r.remaining) :
    r.take n = (.ok (r.rest.take n), { r with offset := r.offset + n, rest := r.rest.drop n }) := by
  unfold remaining at h
  simp [take, Nat.min_eq_left h]

/-- The number that the next two bytes stand for. -/
def nextShort (r : Reader) : Nat := ofLittleEndian (r.rest.take 2)

theorem nextShort_lt {r : Reader} (h : 2 ≤ r.remaining) : r.nextShort < 65536 := by
  have hlt := ofLittleEndian_lt (r.rest.take 2)
  rw [List.length_take_of_le h] at hlt
  exact hlt

/-- Two bytes are read as a number if they are there. -/
theorem short_of_le {r : Reader} (h : 2 ≤ r.remaining) :
    r.short = (.ok (UInt16.ofNat r.nextShort),
      { r with offset := r.offset + 2, rest := r.rest.drop 2 }) := by
  rw [short, take_of_le h]
  rfl

theorem short_of_lt {r : Reader} (h : r.remaining < 2) :
    r.short = (.error (.tooShort 2 r.offset r.length), r) := by
  rw [short, take_of_lt h]
  rfl

/-- What comes of reading a text depends on whether its length and then all its bytes are there, and
on whether they are UTF-8. -/
theorem fst_text (r : Reader) :
    r.text.1 =
      if r.remaining < 2 then .error (.tooShort 2 r.offset r.length)
      else if r.remaining < 2 + r.nextShort then
        .error (.tooShort r.nextShort (r.offset + 2) r.length)
      else match Field.ofUtf8? ((r.rest.drop 2).take r.nextShort) with
        | some s => .ok s
        | none => .error .invalidUtf8 := by
  by_cases hshort : r.remaining < 2
  · rw [text, short_of_lt hshort, if_pos hshort]
  have hle : 2 ≤ r.remaining := Nat.le_of_not_lt hshort
  have hn : (UInt16.ofNat r.nextShort).toNat = r.nextShort := by
    rw [UInt16.toNat_ofNat']
    exact Nat.mod_eq_of_lt (nextShort_lt hle)
  have hdrop : (r.rest.drop 2).length = r.remaining - 2 := List.length_drop
  rw [text, short_of_le hle, if_neg hshort]
  simp only [hn]
  by_cases hrun : r.remaining < 2 + r.nextShort
  · rw [take_of_lt (by rw [remaining, hdrop]; omega), if_pos hrun, length, hdrop]
    have hlength : r.offset + 2 + (r.remaining - 2) = r.length := by
      have : r.length = r.offset + r.remaining := rfl
      omega
    rw [hlength]
  · rw [take_of_le (by rw [remaining, hdrop]; omega), if_neg hrun]
    rcases hutf8 : Field.ofUtf8? ((r.rest.drop 2).take r.nextShort) with _ | s <;> simp only [hutf8]

/-- The first two bytes of what is left are the number that they stand for. -/
theorem ofShort_nextShort {r : Reader} (h : 2 ≤ r.remaining) :
    Field.ofShort (UInt16.ofNat r.nextShort) = r.rest.take 2 :=
  Field.ofShort_ofLittleEndian (List.length_take_of_le h)

/-- A text is read exactly where its bytes stand. -/
theorem fst_text_eq_ok_iff {r : Reader} {s : String} :
    r.text.1 = .ok s ↔ Field.Fits s ∧ Field.textBytes s <+: r.rest := by
  constructor
  · intro h
    rw [fst_text] at h
    split at h
    · cases h
    split at h
    · cases h
    rename_i hshort hrun
    have hle : 2 ≤ r.remaining := Nat.le_of_not_lt hshort
    have hlt := nextShort_lt hle
    split at h
    · rename_i s' hs
      cases h
      have hutf8 := Field.ofUtf8?_eq_some_iff.mp hs
      have hdrop : (r.rest.drop 2).length = r.remaining - 2 := List.length_drop
      have hsize : s.utf8ByteSize = r.nextShort := by
        rw [← Field.length_utf8, hutf8, List.length_take_of_le (by omega)]
      refine ⟨by rw [Field.Fits]; omega, (r.rest.drop 2).drop r.nextShort, ?_⟩
      rw [Field.textBytes, hsize, hutf8, ofShort_nextShort hle, List.append_assoc,
        List.take_append_drop, List.take_append_drop]
    · cases h
  · rintro ⟨hfits, rest, hrest⟩
    have hread := Read.readsBack_text hfits r.opcode r.offset rest
    rw [hrest] at hread
    exact congrArg Prod.fst hread

/-- A text is missing if it or its length is not there in full, or if it is not UTF-8. -/
theorem fst_text_eq_error_iff {r : Reader} : (∃ e, r.text.1 = .error e) ↔
    r.remaining < 2 ∨ r.remaining < 2 + r.nextShort ∨
      ∀ s, Field.utf8 s ≠ (r.rest.drop 2).take r.nextShort := by
  rw [fst_text]
  split
  · simp [*]
  split
  · simp [*]
  split
  · rename_i s hs
    simp only [reduceCtorEq, exists_false, *, false_or, false_iff]
    exact fun hnone => hnone s (Field.ofUtf8?_eq_some_iff.mp hs)
  · rename_i hnone
    simp only [Except.error.injEq, exists_eq', *, false_or, true_iff]
    intro s hs
    rw [← hs, Field.ofUtf8?_utf8] at hnone
    cases hnone

/-- A pair of coordinates is there if four bytes are left. -/
theorem fst_coordinates_cases (r : Reader) : (r.remaining < 4 ∧ ∃ e, r.coordinates.1 = .error e) ∨
    4 ≤ r.remaining ∧ ∃ x y, r.coordinates.1 = .ok (x, y) ∧ Field.ofCoordinates x y <+: r.rest := by
  have hdrop : (r.rest.drop 2).length = r.remaining - 2 := List.length_drop
  rw [coordinates]
  by_cases hx : r.remaining < 2
  · rw [short_of_lt hx]
    exact .inl ⟨by omega, _, rfl⟩
  have hle : 2 ≤ r.remaining := Nat.le_of_not_lt hx
  rw [short_of_le hle]
  by_cases hy : r.remaining < 4
  · simp only
    rw [short_of_lt (by rw [remaining, hdrop]; omega)]
    exact .inl ⟨hy, _, rfl⟩
  · have hle' : 2 ≤ remaining ⟨r.opcode, r.offset + 2, r.rest.drop 2⟩ := by
      rw [remaining, hdrop]
      omega
    simp only
    rw [short_of_le hle']
    refine .inr ⟨Nat.le_of_not_lt hy, _, _, rfl, (r.rest.drop 2).drop 2, ?_⟩
    rw [Field.ofCoordinates, ofShort_nextShort hle, ofShort_nextShort hle', List.append_assoc,
      List.take_append_drop, List.take_append_drop]

/-- A pair of coordinates is read exactly where its bytes stand. -/
theorem fst_coordinates_eq_ok_iff {r : Reader} {p : UInt16 × UInt16} :
    r.coordinates.1 = .ok p ↔ Field.ofCoordinates p.1 p.2 <+: r.rest := by
  constructor
  · intro h
    obtain ⟨-, e, he⟩ | ⟨-, x, y, hxy, hprefix⟩ := fst_coordinates_cases r
    · rw [he] at h
      cases h
    · rw [hxy] at h
      cases h
      exact hprefix
  · rintro ⟨rest, hrest⟩
    have hread := coordinates_ofCoordinates r.opcode r.offset p.1 p.2 rest
    rw [hrest] at hread
    exact congrArg Prod.fst hread

/-- A frame opens with the bytes of its opcode. -/
theorem ofFrame_eq_ok_iff {frame : Bytes} {r : Reader} :
    ofFrame frame = .ok r ↔
      r.offset = headerSize ∧ frame = Field.ofShort r.opcode ++ r.rest := by
  constructor
  · intro h
    rcases frame with _ | ⟨a, _ | ⟨b, rest⟩⟩
    · cases h
    · cases h
    · cases h
      exact ⟨rfl, by rw [Field.ofShort_ofLittleEndian rfl]; rfl⟩
  · obtain ⟨op, off, rest⟩ := r
    rintro ⟨rfl, rfl⟩
    exact ofFrame_bytes ⟨op, rest⟩

end Reader

end TileWorld
