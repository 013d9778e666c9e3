import TileWorld.Client.Request
import TileWorld.Proofs.Wire.Reading

/-!
# Requests on the wire

A request has a written form unless its name or text is too long, and a frame makes a request exactly
if it begins with the written form of that request (`Request.decode_eq_ok_iff`). What can be wrong
with a frame that makes none is `Request.Malformed`. The laws together are `Request.round_trip`.
-/

namespace TileWorld

namespace Request

/-- The name or the text that a request carries. -/
def text? : Request → Option String
  | enter name => some name
  | say text => some text
  | _ => none

/-- The bytes of a request behind its opcode. -/
def payload : Request → Bytes
  | enter name => Field.textBytes name
  | walk p => Field.ofCoordinates p.x p.y
  | say text => Field.textBytes text
  | _ => []

/-- A request can be written if its text fits, and then it is the opcode and the payload. -/
theorem encode_eq_ok_iff {q : Request} {m : Message} : q.encode = .ok m ↔
    (∀ s, q.text? = some s → Field.Fits s) ∧ m = ⟨q.opcode, q.payload⟩ := by
  cases q with
  | enter s | say s =>
    by_cases h : Field.Fits s <;>
      simp [encode, fields, opcode, payload, text?, Message.ofFields, Message.write, Field.encode,
        Field.ofText, h, Except.map, bind, Except.bind, pure, Except.pure, eq_comm]
  | _ =>
    simp [encode, fields, opcode, payload, text?, Message.ofFields, Message.write, Field.encode,
      Except.map, bind, Except.bind, pure, Except.pure, eq_comm]

/-- A request cannot be written if its text is too long, and the error says how long it is. -/
theorem encode_eq_error_iff {q : Request} {err : WireError} : q.encode = .error err ↔
    ∃ s, q.text? = some s ∧ 65535 < s.utf8ByteSize ∧ err = .stringTooLong s.utf8ByteSize := by
  cases q with
  | enter s | say s =>
    have hfits : ¬ Field.Fits s ↔ 65535 < s.utf8ByteSize := Nat.not_le
    by_cases h : Field.Fits s <;>
      simp [encode, fields, opcode, text?, Message.ofFields, Message.write, Field.encode,
        Field.ofText, ← hfits, h, Except.map, bind, Except.bind, pure, Except.pure, eq_comm]
  | _ =>
    simp [encode, fields, opcode, text?, Message.ofFields, Message.write, Field.encode,
      Except.map, bind, Except.bind, pure, Except.pure]

/-- What a request is read from behind its opcode. -/
theorem decode_eq_ok_iff_of_ofFrame {frame : Bytes} {r : Reader} (h : Reader.ofFrame frame = .ok r)
    {q : Request} : decode frame = .ok q ↔
      r.opcode = q.opcode ∧ (∀ s, q.text? = some s → Field.Fits s) ∧ q.payload <+: r.rest := by
  have hmap {α : Type} {x : Except WireError α} {f : α → Request} :
      x.map f = .ok q ↔ ∃ a, x = .ok a ∧ f a = q := by cases x <;> simp [Except.map]
  rw [decode, h]
  constructor
  · intro hq
    simp only at hq
    split at hq
    · obtain ⟨s, hs, rfl⟩ := hmap.mp hq
      obtain ⟨hfits, hprefix⟩ := Reader.fst_text_eq_ok_iff.mp hs
      exact ⟨‹_›, by simpa [text?] using hfits, hprefix⟩
    split at hq
    · cases hq
      exact ⟨‹_›, by simp [text?], List.nil_prefix⟩
    split at hq
    · obtain ⟨p, hp, rfl⟩ := hmap.mp hq
      exact ⟨‹_›, by simp [text?], Reader.fst_coordinates_eq_ok_iff.mp hp⟩
    split at hq
    · cases hq
      exact ⟨‹_›, by simp [text?], List.nil_prefix⟩
    split at hq
    · obtain ⟨s, hs, rfl⟩ := hmap.mp hq
      obtain ⟨hfits, hprefix⟩ := Reader.fst_text_eq_ok_iff.mp hs
      exact ⟨‹_›, by simpa [text?] using hfits, hprefix⟩
    · cases hq
  · rintro ⟨hop, hfits, hprefix⟩
    cases q with
    | enter s =>
      have hs := Reader.fst_text_eq_ok_iff.mpr ⟨hfits s rfl, hprefix⟩
      simp [hop, opcode, hs, Except.map]
    | leave => simp [hop, opcode, Opcode.enterWorld, Opcode.leaveWorld]
    | walk p =>
      have hp : r.coordinates.1 = .ok (p.x, p.y) := Reader.fst_coordinates_eq_ok_iff.mpr hprefix
      simp [hop, opcode, hp, Except.map, Opcode.enterWorld, Opcode.leaveWorld, Opcode.walk]
    | attack =>
      simp [hop, opcode, Opcode.enterWorld, Opcode.leaveWorld, Opcode.walk, Opcode.attack]
    | say s =>
      have hs := Reader.fst_text_eq_ok_iff.mpr ⟨hfits s rfl, hprefix⟩
      simp [hop, opcode, hs, Except.map, Opcode.enterWorld, Opcode.leaveWorld, Opcode.walk,
        Opcode.attack, Opcode.say]

/-- A frame makes a request exactly if it begins with the written form of the request. -/
theorem decode_eq_ok_iff {frame : Bytes} {q : Request} :
    decode frame = .ok q ↔ ∃ m, q.encode = .ok m ∧ m.bytes <+: frame := by
  constructor
  · intro hq
    rcases h : Reader.ofFrame frame with err | r
    · rw [decode, h] at hq
      cases hq
    · obtain ⟨hop, hfits, rest, hrest⟩ := (decode_eq_ok_iff_of_ofFrame h).mp hq
      obtain ⟨-, rfl⟩ := Reader.ofFrame_eq_ok_iff.mp h
      refine ⟨_, encode_eq_ok_iff.mpr ⟨hfits, rfl⟩, rest, ?_⟩
      rw [Message.bytes, hop, List.append_assoc, hrest]
  · rintro ⟨m, hm, rest, rfl⟩
    obtain ⟨hfits, rfl⟩ := encode_eq_ok_iff.mp hm
    have h : Reader.ofFrame (Message.bytes ⟨q.opcode, q.payload⟩ ++ rest) =
        .ok ⟨q.opcode, headerSize, q.payload ++ rest⟩ :=
      Reader.ofFrame_eq_ok_iff.mpr ⟨rfl, List.append_assoc ..⟩
    exact (decode_eq_ok_iff_of_ofFrame h).mpr ⟨rfl, hfits, List.prefix_append ..⟩

/-! ### Frames that make no request -/

/-- The opcode of a frame. -/
def opcodeOf (frame : Bytes) : UInt16 := UInt16.ofNat (ofLittleEndian (frame.take headerSize))

/-- How long the text of a frame says that it is. -/
def declaredLength (frame : Bytes) : Nat := ofLittleEndian ((frame.drop headerSize).take 2)

/-- The frame has the opcode of a request that carries a name or a text. -/
def Textual (frame : Bytes) : Prop :=
  opcodeOf frame = Opcode.enterWorld ∨ opcodeOf frame = Opcode.say

/-- What is wrong with a frame that makes no request. -/
inductive Malformed (frame : Bytes) : Prop where
  /-- There is no opcode. -/
  | header (h : frame.length < headerSize)
  /-- No request has that opcode. -/
  | opcode (h : ∀ q : Request, opcodeOf frame ≠ q.opcode)
  /-- The coordinates are not there in full. -/
  | coordinates (h : opcodeOf frame = Opcode.walk) (hlt : frame.length < headerSize + 4)
  /-- The length of the text is not there in full. -/
  | length (h : Textual frame) (hlt : frame.length < headerSize + 2)
  /-- The text is not there in full. -/
  | text (h : Textual frame) (hlt : frame.length < headerSize + 2 + declaredLength frame)
  /-- The text is not UTF-8. -/
  | utf8 (h : Textual frame)
    (hne : ∀ s, Field.utf8 s ≠ (frame.drop (headerSize + 2)).take (declaredLength frame))

section

variable (op : UInt16) (rest : Bytes)

theorem opcodeOf_append : opcodeOf (Field.ofShort op ++ rest) = op := by
  have hop := ofLittleEndian_littleEndian 2 op.toNat
  rw [opcodeOf, headerSize, List.take_left' (Field.length_ofShort op), Field.ofShort, hop]
  have hlt : op.toNat % Nat.pow 256 2 = op.toNat := Nat.mod_eq_of_lt op.toNat_lt
  rw [hlt, UInt16.ofNat_toNat]

theorem declaredLength_append (off : Nat) :
    declaredLength (Field.ofShort op ++ rest) = Reader.nextShort ⟨op, off, rest⟩ := by
  rw [declaredLength, headerSize, List.drop_left' (Field.length_ofShort op)]
  rfl

end

/-- What stands in the way of a request behind the opcode. -/
theorem decode_eq_error_iff_of_ofFrame {frame : Bytes} {r : Reader}
    (h : Reader.ofFrame frame = .ok r) :
    (∃ err, decode frame = .error err) ↔ (∀ q : Request, r.opcode ≠ q.opcode) ∨
      (r.opcode = Opcode.walk ∧ r.remaining < 4) ∨
      ((r.opcode = Opcode.enterWorld ∨ r.opcode = Opcode.say) ∧ ∃ err, r.text.1 = .error err) := by
  have hmap {α : Type} {x : Except WireError α} {f : α → Request} :
      (∃ err, x.map f = .error err) ↔ ∃ err, x = .error err := by cases x <;> simp [Except.map]
  have hcoordinates : (∃ err, r.coordinates.1 = .error err) ↔ r.remaining < 4 := by
    obtain ⟨hlt, err, herr⟩ | ⟨hle, x, y, hxy, -⟩ := r.fst_coordinates_cases
    · simp [herr, hlt]
    · simp [hxy, Nat.not_lt.mpr hle]
  -- the opcode of a request is not unknown
  have hknown (q : Request) (hop : r.opcode = q.opcode) : ¬ ∀ q : Request, r.opcode ≠ q.opcode :=
    fun hnot => hnot q hop
  rw [decode, h]
  simp only
  split
  · rename_i hop
    rw [hmap, or_iff_right (hknown (.enter "") hop)]
    simp [hop, Opcode.enterWorld, Opcode.walk]
  split
  · rename_i hop
    rw [or_iff_right (hknown .leave hop)]
    simp [hop, Opcode.leaveWorld, Opcode.enterWorld, Opcode.walk, Opcode.say]
  split
  · rename_i hop
    rw [hmap, hcoordinates, or_iff_right (hknown (.walk ⟨0, 0⟩) hop)]
    simp [hop, Opcode.enterWorld, Opcode.walk, Opcode.say]
  split
  · rename_i hop
    rw [or_iff_right (hknown .attack hop)]
    simp [hop, Opcode.attack, Opcode.enterWorld, Opcode.walk, Opcode.say]
  split
  · rename_i hop
    rw [hmap, or_iff_right (hknown (.say "") hop)]
    simp [hop, Opcode.say, Opcode.walk]
  · have hunknown (q : Request) : r.opcode ≠ q.opcode := by cases q <;> assumption
    simp [hunknown]

/-- A frame makes no request exactly if something is wrong with it. -/
theorem decode_eq_error_iff {frame : Bytes} :
    (∃ err, decode frame = .error err) ↔ Malformed frame := by
  rcases h : Reader.ofFrame frame with err | r
  · have hshort : frame.length < headerSize := by
      rcases frame with _ | ⟨a, _ | ⟨b, rest⟩⟩
      · decide
      · exact Nat.one_lt_two
      · cases h
    rw [decode, h]
    exact ⟨fun _ => .header hshort, fun _ => ⟨err, rfl⟩⟩
  · rw [decode_eq_error_iff_of_ofFrame h, Reader.fst_text_eq_error_iff]
    obtain ⟨op, off, rest⟩ := r
    obtain ⟨-, rfl⟩ := Reader.ofFrame_eq_ok_iff.mp h
    have hlength : (Field.ofShort op ++ rest).length = headerSize + rest.length := by
      rw [List.length_append, Field.length_ofShort, headerSize]
    have htext : (Field.ofShort op ++ rest).drop (headerSize + 2) = rest.drop 2 := by
      rw [← List.drop_drop, headerSize, List.drop_left' (Field.length_ofShort op)]
    have hop := opcodeOf_append op rest
    have hdeclared := declaredLength_append op rest off
    constructor
    · rintro (hunknown | ⟨hwalk, hlt⟩ | ⟨htextual, hlt | hlt | hne⟩)
      · exact .opcode (by rwa [hop])
      · exact .coordinates (hop.trans hwalk) (by rw [hlength]; exact Nat.add_lt_add_left hlt _)
      · exact .length (by rwa [Textual, hop]) (by rw [hlength]; exact Nat.add_lt_add_left hlt _)
      · refine .text (by rwa [Textual, hop]) ?_
        rw [hlength, hdeclared, Nat.add_assoc]
        exact Nat.add_lt_add_left hlt _
      · exact .utf8 (by rwa [Textual, hop]) (by rwa [htext, hdeclared])
    · rintro (hlt | hunknown | ⟨hwalk, hlt⟩ | ⟨htextual, hlt⟩ | ⟨htextual, hlt⟩ | ⟨htextual, hne⟩)
      · rw [hlength] at hlt
        exact absurd hlt (Nat.not_lt.mpr (Nat.le_add_right ..))
      · exact .inl (by rwa [hop] at hunknown)
      · rw [hlength] at hlt
        exact .inr (.inl ⟨hop.symm.trans hwalk, Nat.lt_of_add_lt_add_left hlt⟩)
      · rw [hlength] at hlt
        exact .inr (.inr ⟨by rwa [Textual, hop] at htextual, .inl (Nat.lt_of_add_lt_add_left hlt)⟩)
      · rw [hlength, hdeclared, Nat.add_assoc] at hlt
        exact .inr (.inr ⟨by rwa [Textual, hop] at htextual,
          .inr (.inl (Nat.lt_of_add_lt_add_left hlt))⟩)
      · rw [htext, hdeclared] at hne
        exact .inr (.inr ⟨by rwa [Textual, hop] at htextual, .inr (.inr hne)⟩)

/-! ### The round trip -/

/-- A request is written unless its name or text is too long, and what is written makes that request
again, whatever follows it. Whatever makes a request begins with the written form of the request,
and what makes none is malformed. -/
theorem round_trip :
    (∀ (q : Request) (err : WireError), q.encode = .error err ↔
      ∃ s, q.text? = some s ∧ 65535 < s.utf8ByteSize ∧ err = .stringTooLong s.utf8ByteSize) ∧
    (∀ (q : Request) (m : Message), q.encode = .ok m →
      ∀ rest : Bytes, decode (m.bytes ++ rest) = .ok q) ∧
    (∀ (frame : Bytes) (q : Request), decode frame = .ok q →
      ∃ m, q.encode = .ok m ∧ m.bytes <+: frame) ∧
    ∀ frame : Bytes, (∃ err, decode frame = .error err) ↔ Malformed frame :=
  ⟨fun _ _ => encode_eq_error_iff,
    fun _ m hm rest => decode_eq_ok_iff.mpr ⟨m, hm, List.prefix_append m.bytes rest⟩,
    fun _ _ => decode_eq_ok_iff.mp, fun _ => decode_eq_error_iff⟩

/-- A greeting with a byte behind it, and coordinates that break off. -/
theorem round_trip_greeting :
    decode (Message.bytes ⟨Opcode.say, Field.textBytes "hi"⟩ ++ [7]) = .ok (.say "hi") ∧
      (∃ m, (Request.say "hi").encode = .ok m ∧
        m.bytes <+: Message.bytes ⟨Opcode.say, Field.textBytes "hi"⟩ ++ [7]) ∧
      ∃ err, decode (Field.ofShort Opcode.walk ++ [5, 0, 9]) = .error err := by
  have hwritten : (Request.say "hi").encode = .ok ⟨Opcode.say, Field.textBytes "hi"⟩ :=
    encode_eq_ok_iff.mpr ⟨by simpa [text?] using (by decide : Field.Fits "hi"), rfl⟩
  have hread := round_trip.2.1 _ _ hwritten [7]
  exact ⟨hread, round_trip.2.2.1 _ _ hread,
    (round_trip.2.2.2 _).mpr (.coordinates (by decide) (by decide))⟩

end Request
end TileWorld
