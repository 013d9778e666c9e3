import TileWorld.Proofs.Wire.Reading

/-!
# The place of a reader

Whatever is asked for, and whether or not it can be read, a reader passes some bytes of its frame and
stays inside it. The bytes that it passes are the written form of what it gives back. A number that is
not there moves nothing, and of a pair of coordinates that is not there in full at most the first one is
passed. All that one read can do is `Reader.field_cases`.

That a reader stands in a frame (`Reader.StandsIn`) is kept by any number of reads
(`Reader.StandsIn.after`), so that all this holds of a read whatever has been read before
(`Reader.StandsIn.readsIn`).
-/

namespace TileWorld

/-- The kinds of numbers. -/
def FieldKind.IsNumber : FieldKind → Prop
  | .byte | .short | .long => True
  | .coordinates | .text => False

namespace Field

/-- A byte is the number that it stands for. -/
theorem byte_ofLittleEndian {bs : Bytes} (h : bs.length = 1) :
    [UInt8.ofNat (ofLittleEndian bs)] = bs := by
  have hread := littleEndian_ofLittleEndian bs
  rwa [h] at hread

/-- Four bytes are the bytes of the number that they stand for. -/
theorem ofLong_ofLittleEndian {bs : Bytes} (h : bs.length = 4) :
    ofLong (UInt32.ofNat (ofLittleEndian bs)) = bs := by
  have hlt := ofLittleEndian_lt bs
  rw [h] at hlt
  have hnat : (UInt32.ofNat (ofLittleEndian bs)).toNat = ofLittleEndian bs := by
    rw [UInt32.toNat_ofNat']
    exact Nat.mod_eq_of_lt hlt
  rw [ofLong, hnat, ← h, littleEndian_ofLittleEndian]

end Field

namespace Reader

/-! ### What stands between two places -/

/-- A reader has passed some bytes since it stood in another place. -/
structure Passes (r r' : Reader) (bs : Bytes) : Prop where
  rest_eq : r.rest = bs ++ r'.rest
  offset_eq : r'.offset = r.offset + bs.length

theorem Passes.refl (r : Reader) : Passes r r [] := ⟨rfl, rfl⟩

theorem Passes.trans {r r' r'' : Reader} {bs cs : Bytes} (h : Passes r r' bs)
    (h' : Passes r' r'' cs) : Passes r r'' (bs ++ cs) where
  rest_eq := by rw [h.rest_eq, h'.rest_eq, List.append_assoc]
  offset_eq := by rw [h'.offset_eq, h.offset_eq, List.length_append, Nat.add_assoc]

/-! ### One read -/

/-- Bytes are read as they stand there, or nothing moves. -/
theorem take_cases (r : Reader) (n : Nat) :
    (∃ bs r', r.take n = (.ok bs, r') ∧ bs.length = n ∧ Passes r r' bs) ∨
      ∃ e, r.take n = (.error e, r) := by
  rcases Nat.lt_or_ge r.remaining n with hlt | hge
  · exact .inr ⟨_, take_of_lt hlt⟩
  · have hlength : (r.rest.take n).length = n := List.length_take_of_le hge
    have hsplit := (List.take_append_drop n r.rest).symm
    exact .inl ⟨_, _, take_of_le hge, hlength, ⟨hsplit, by rw [hlength]⟩⟩

/-- Whatever has `n` bytes for its written form is read where they stand, or nothing moves. -/
theorem number_cases {α : Type} {n : Nat} {ofBytes : Bytes → α} (enc : α → Bytes)
    (henc : ∀ bs, bs.length = n → enc (ofBytes bs) = bs) (r : Reader) :
    (∃ v r', ((r.take n).1.map ofBytes, (r.take n).2) = (.ok v, r') ∧ Passes r r' (enc v)) ∨
      ∃ e, ((r.take n).1.map ofBytes, (r.take n).2) = (.error e, r) := by
  obtain ⟨bs, r', htake, hlength, hpasses⟩ | ⟨e, htake⟩ := r.take_cases n
  · rw [htake]
    exact .inl ⟨ofBytes bs, r', rfl, (henc bs hlength).symm ▸ hpasses⟩
  · rw [htake]
    exact .inr ⟨e, rfl⟩

/-- A byte is read and passed over, or nothing moves. -/
theorem byte_cases (r : Reader) : (∃ v r', r.byte = (.ok v, r') ∧ Passes r r' [v]) ∨
    ∃ e, r.byte = (.error e, r) :=
  number_cases (fun v => [v]) (fun _ => Field.byte_ofLittleEndian) r

theorem short_cases (r : Reader) :
    (∃ v r', r.short = (.ok v, r') ∧ Passes r r' (Field.ofShort v)) ∨
      ∃ e, r.short = (.error e, r) :=
  number_cases Field.ofShort (fun _ => Field.ofShort_ofLittleEndian) r

theorem long_cases (r : Reader) :
    (∃ v r', r.long = (.ok v, r') ∧ Passes r r' (Field.ofLong v)) ∨
      ∃ e, r.long = (.error e, r) :=
  number_cases Field.ofLong (fun _ => Field.ofLong_ofLittleEndian) r

/-- A pair of coordinates is read as two numbers. If one of them is missing, the first one may have been
passed. -/
theorem coordinates_cases (r : Reader) :
    (∃ x y r', r.coordinates = (.ok (x, y), r') ∧ Passes r r' (Field.ofCoordinates x y)) ∨
      ∃ e bs, r.coordinates = (.error e, r.short.2) ∧ Passes r r.short.2 bs := by
  obtain ⟨x, r₁, hx, hpasses⟩ | ⟨e, hx⟩ := r.short_cases
  · obtain ⟨y, r₂, hy, hpasses'⟩ | ⟨e, hy⟩ := r₁.short_cases
    · exact .inl ⟨x, y, r₂, by rw [coordinates, hx]; simp only [hy]; rfl, hpasses.trans hpasses'⟩
    · exact .inr ⟨e, _, by rw [coordinates, hx]; simp only [hy]; rfl, by rw [hx]; exact hpasses⟩
  · exact .inr ⟨e, [], by rw [coordinates, hx], by rw [hx]; exact .refl r⟩

/-- A text is read with its length in front. If it cannot be read, its length may have been passed, and
its bytes as well. -/
theorem text_cases (r : Reader) :
    (∃ s r', r.text = (.ok s, r') ∧ Field.Fits s ∧ Passes r r' (Field.textBytes s)) ∨
      ∃ e r' bs, r.text = (.error e, r') ∧ Passes r r' bs := by
  obtain ⟨n, r₁, hn, hpasses⟩ | ⟨e, hn⟩ := r.short_cases
  · obtain ⟨bs, r₂, hbs, hlength, hpasses'⟩ | ⟨e, hbs⟩ := r₁.take_cases n.toNat
    · cases hutf8 : Field.ofUtf8? bs with
      | some s =>
        have hspelt := Field.ofUtf8?_eq_some_iff.mp hutf8
        have hsize : s.utf8ByteSize = n.toNat := by rw [← Field.length_utf8, hspelt, hlength]
        have hfits : Field.Fits s := by
          rw [Field.Fits, hsize]
          exact Nat.le_of_lt_succ n.toNat_lt
        have hbytes : Field.textBytes s = Field.ofShort n ++ bs := by
          rw [Field.textBytes, hsize, hspelt, UInt16.ofNat_toNat]
        refine .inl ⟨s, r₂, ?_, hfits, hbytes ▸ hpasses.trans hpasses'⟩
        rw [text, hn]
        simp only [hbs, hutf8]
      | none =>
        refine .inr ⟨.invalidUtf8, r₂, _, ?_, hpasses.trans hpasses'⟩
        rw [text, hn]
        simp only [hbs, hutf8]
    · refine .inr ⟨e, r₁, _, ?_, hpasses⟩
      rw [text, hn]
      simp only [hbs]
  · exact .inr ⟨e, r, [], by rw [text, hn], .refl r⟩

/-- All that one read can do. A field that is read has been passed, byte for byte. A read that fails may
have passed some bytes too, but not if it is that of a number. -/
theorem field_cases (r : Reader) (k : FieldKind) :
    (∃ f r' bs, r.field k = (.ok f, r') ∧ f.kind = k ∧ f.encode = .ok bs ∧ Passes r r' bs) ∨
      ∃ e r' bs, r.field k = (.error e, r') ∧ Passes r r' bs ∧ (k.IsNumber → r' = r) ∧
        (k = .coordinates → r' = r.short.2) := by
  cases k with
  | byte =>
    obtain ⟨v, r', h, hpasses⟩ | ⟨e, h⟩ := r.byte_cases
    · exact .inl ⟨.byte v, r', _, by rw [field, h]; rfl, rfl, rfl, hpasses⟩
    · exact .inr ⟨e, r, [], by rw [field, h]; rfl, .refl r, fun _ => rfl, fun hk => absurd hk (by decide)⟩
  | short =>
    obtain ⟨v, r', h, hpasses⟩ | ⟨e, h⟩ := r.short_cases
    · exact .inl ⟨.short v, r', _, by rw [field, h]; rfl, rfl, rfl, hpasses⟩
    · exact .inr ⟨e, r, [], by rw [field, h]; rfl, .refl r, fun _ => rfl, fun hk => absurd hk (by decide)⟩
  | long =>
    obtain ⟨v, r', h, hpasses⟩ | ⟨e, h⟩ := r.long_cases
    · exact .inl ⟨.long v, r', _, by rw [field, h]; rfl, rfl, rfl, hpasses⟩
    · exact .inr ⟨e, r, [], by rw [field, h]; rfl, .refl r, fun _ => rfl, fun hk => absurd hk (by decide)⟩
  | coordinates =>
    obtain ⟨x, y, r', h, hpasses⟩ | ⟨e, bs, h, hpasses⟩ := r.coordinates_cases
    · exact .inl ⟨.coordinates x y, r', _, by rw [field, h]; rfl, rfl, rfl, hpasses⟩
    · exact .inr ⟨e, _, bs, by rw [field, h]; rfl, hpasses, False.elim, fun _ => rfl⟩
  | text =>
    obtain ⟨s, r', h, hfits, hpasses⟩ | ⟨e, r', bs, h, hpasses⟩ := r.text_cases
    · exact .inl ⟨.text s, r', _, by rw [field, h]; rfl, rfl, Field.ofText_of_fits hfits, hpasses⟩
    · exact .inr ⟨e, r', bs, by rw [field, h]; rfl, hpasses, False.elim, fun hk => absurd hk (by decide)⟩

/-! ### Places in a frame -/

/-- A reader stands in a frame, behind the opcode, and what it has not read is the rest of the frame. -/
structure StandsIn (frame : Bytes) (r : Reader) : Prop where
  header_le : headerSize ≤ r.offset
  offset_le : r.offset ≤ frame.length
  rest_eq : r.rest = frame.drop r.offset

/-- The bytes of a frame between two places. -/
def between (frame : Bytes) (r r' : Reader) : Bytes :=
  (frame.drop r.offset).take (r'.offset - r.offset)

namespace StandsIn

variable {frame : Bytes} {r r' : Reader}

theorem remaining_eq (h : StandsIn frame r) : r.remaining = frame.length - r.offset := by
  rw [remaining, h.rest_eq, List.length_drop]

/-- Bytes that have been passed are those between the two places, and the second one is in the frame
too. -/
theorem passes {bs : Bytes} (h : StandsIn frame r) (hpasses : Passes r r' bs) :
    StandsIn frame r' ∧ bs = between frame r r' := by
  obtain ⟨hrest, hoffset⟩ := hpasses
  -- the frame behind the first place is what has been passed, and then what is left
  have hsplit : bs ++ r'.rest = frame.drop r.offset := hrest ▸ h.rest_eq
  have hlength := congrArg List.length hsplit
  rw [List.length_append, List.length_drop] at hlength
  have hle := h.offset_le
  refine ⟨⟨by have := h.header_le; omega, by omega, ?_⟩, ?_⟩
  · rw [hoffset, ← List.drop_drop, ← hsplit, List.drop_left]
  · rw [between, hoffset, Nat.add_sub_cancel_left, ← hsplit, List.take_left]

/-- A read stays in the frame and goes no way back. -/
theorem field (h : StandsIn frame r) (k : FieldKind) :
    StandsIn frame (r.field k).2 ∧ r.offset ≤ (r.field k).2.offset := by
  obtain ⟨f, r', bs, hread, -, -, hpasses⟩ | ⟨e, r', bs, hread, hpasses, -⟩ := r.field_cases k
  all_goals
    rw [hread]
    exact ⟨(h.passes hpasses).1, hpasses.offset_eq ▸ Nat.le_add_right _ _⟩

end StandsIn

/-- The reader of a frame stands in it, right behind the opcode. -/
theorem exists_standsIn {frame : Bytes} (h : headerSize ≤ frame.length) :
    ∃ r, ofFrame frame = .ok r ∧ r.offset = headerSize ∧ StandsIn frame r := by
  rcases frame with _ | ⟨a, _ | ⟨b, rest⟩⟩
  · cases h
  · simp [headerSize] at h
  · exact ⟨_, rfl, rfl, ⟨Nat.le_refl _, by simp [headerSize], rfl⟩⟩

/-! ### Any number of reads -/

/-- The place after some reads, some of which may have failed. -/
def after (r : Reader) (ks : List FieldKind) : Reader := ks.foldl (fun r k => (r.field k).2) r

/-- Any number of reads stays in the frame. -/
theorem StandsIn.after {frame : Bytes} {r : Reader} (h : StandsIn frame r) (ks : List FieldKind) :
    StandsIn frame (r.after ks) := by
  induction ks generalizing r with
  | nil => exact h
  | cons k ks ih => exact ih (h.field k).1

/-- What a read does in a frame. -/
structure ReadsIn (frame : Bytes) (r : Reader) (k : FieldKind) : Prop where
  /-- Before it, the reader stands behind the opcode. -/
  header_le : headerSize ≤ r.offset
  /-- It goes no way back. -/
  forward : r.offset ≤ (r.field k).2.offset
  /-- After it, the reader has not left the frame. -/
  inside : (r.field k).2.offset ≤ frame.length
  /-- What is left is what the frame has behind the reader. -/
  remaining_eq : (r.field k).2.remaining = frame.length - (r.field k).2.offset
  /-- If it succeeds, what it gives back is of the right kind and written between the two places. -/
  exact : ∀ f, (r.field k).1 = .ok f → f.kind = k ∧ f.encode = .ok (between frame r (r.field k).2)
  /-- If it fails and is that of a number, nothing moves. -/
  still : k.IsNumber → ∀ e, (r.field k).1 = .error e → (r.field k).2 = r
  /-- If it fails and is that of two coordinates, the reader stands where the first one has left it. -/
  halfway : k = .coordinates → ∀ e, (r.field k).1 = .error e → (r.field k).2 = (r.field .short).2

/-- Whatever has been read before, a read does to a place in a frame what it should. -/
theorem StandsIn.readsIn {frame : Bytes} {r : Reader} (h : StandsIn frame r) (k : FieldKind) :
    ReadsIn frame r k where
  header_le := h.header_le
  forward := (h.field k).2
  inside := (h.field k).1.offset_le
  remaining_eq := (h.field k).1.remaining_eq
  exact f hf := by
    obtain ⟨f', r', bs, hread, hkind, hencode, hpasses⟩ | ⟨e, r', bs, hread, -⟩ := r.field_cases k
    · rw [hread] at hf ⊢
      cases hf
      exact ⟨hkind, (h.passes hpasses).2 ▸ hencode⟩
    · rw [hread] at hf
      cases hf
  still hk e he := by
    obtain ⟨f', r', bs, hread, -⟩ | ⟨e, r', bs, hread, -, hstill, -⟩ := r.field_cases k
    · rw [hread] at he
      cases he
    · rw [hread]
      exact hstill hk
  halfway hk e he := by
    obtain ⟨f', r', bs, hread, -⟩ | ⟨e, r', bs, hread, -, -, hhalfway⟩ := r.field_cases k
    · rw [hread] at he
      cases he
    · rw [hread]
      exact hhalfway hk

end Reader

end TileWorld
