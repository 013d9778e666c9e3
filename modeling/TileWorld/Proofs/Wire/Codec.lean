import TileWorld.Wire.Opcode
import TileWorld.Wire.Read
import TileWorld.Wire.Write
import TileWorld.Proofs.Wire.Cursor

/-!
# Fields on the wire

Fields that are put to a message one after the other are read back from its bytes one after the other,
and then nothing is left. A text that is too long is refused wherever it stands among them, and what is
put before and behind it makes the message that it makes without it. Readers keep to their frames
whatever they are asked for. The laws together are `Message.fields_read_back`.
-/

namespace TileWorld

namespace Message

/-- Fields that make a message are read back from its bytes, up to the end. -/
theorem exists_read_of_ofFields {opcode : UInt16} {fs : List Field} {m : Message}
    (h : ofFields opcode fs = .ok m) : ∃ r r', Reader.ofFrame m.bytes = .ok r ∧ r.opcode = opcode ∧
      Read.fields (fs.map Field.kind) r = (.ok fs, r') ∧ r'.remaining = 0 := by
  obtain ⟨bs, rfl, hread⟩ := Read.readsBack_fields h
  have hfields := hread opcode headerSize []
  rw [List.append_nil] at hfields
  exact ⟨_, _, Reader.ofFrame_bytes _, rfl, hfields, rfl⟩

/-- A text that is too long is refused where it stands, and the rest is put as it is without it. -/
theorem putAll_of_not_fits (m : Message) (before after : List Field) {s : String}
    (h : 65535 < s.utf8ByteSize) : m.putAll (before ++ .text s :: after) =
      ((m.putAll before).1 ++ .error (.stringTooLong s.utf8ByteSize) ::
          ((m.putAll before).2.putAll after).1,
        (m.putAll (before ++ after)).2) := by
  have hrefused := putText_of_not_fits (m.putAll before).2 h
  simp only [putAll_append, putAll_cons, put, hrefused]

/-- Fields none of which is too long a text are put to a message of any opcode, and from the bytes of
the message the opcode and then the fields are read back until nothing is left. A text that is too long
is refused behind any fields and before any others. It leaves the message as it is, and the others make
the message that they make without it. In a frame that has an opcode each read, whatever has been read
before, goes no way back, does not leave the frame, and gives back what is written between the places
before and after it. -/
theorem fields_read_back :
    (∀ (opcode : UInt16) (fs : List Field), (∀ s, .text s ∈ fs → Field.Fits s) → ∃ m r r',
      putAll ⟨opcode, []⟩ fs = (fs.map fun _ => .ok (), m) ∧ ofFields opcode fs = .ok m ∧
        Reader.ofFrame m.bytes = .ok r ∧ r.opcode = opcode ∧
        Read.fields (fs.map Field.kind) r = (.ok fs, r') ∧ r'.remaining = 0) ∧
    (∀ (opcode : UInt16) (before after : List Field) (s : String), 65535 < s.utf8ByteSize →
      ∃ m, (putAll ⟨opcode, []⟩ before).2 = m ∧
        m.put (.text s) = (.error (.stringTooLong s.utf8ByteSize), m) ∧
        putAll ⟨opcode, []⟩ (before ++ .text s :: after) =
          ((putAll ⟨opcode, []⟩ before).1 ++ .error (.stringTooLong s.utf8ByteSize) ::
              (m.putAll after).1,
            (putAll ⟨opcode, []⟩ (before ++ after)).2)) ∧
    ∀ frame : Bytes, headerSize ≤ frame.length → ∃ r, Reader.ofFrame frame = .ok r ∧
      r.offset = headerSize ∧ ∀ ks k, Reader.ReadsIn frame (r.after ks) k := by
  refine ⟨fun opcode fs hfits => ?_, fun opcode before after s hlong => ?_, fun frame hframe => ?_⟩
  · obtain ⟨m, hm⟩ := exists_ofFields opcode hfits
    obtain ⟨r, r', hframe, hopcode, hread, hleft⟩ := exists_read_of_ofFields hm
    exact ⟨m, r, r', putAll_of_foldlM hm, hm, hframe, hopcode, hread, hleft⟩
  · exact ⟨_, rfl, putText_of_not_fits _ hlong, putAll_of_not_fits _ before after hlong⟩
  · obtain ⟨r, hr, hoffset, hstands⟩ := Reader.exists_standsIn hframe
    exact ⟨r, hr, hoffset, fun ks k => (hstands.after ks).readsIn k⟩

/-- A greeting and the place it was said at are read back, and some text is too long to stand between
them. From a frame with a single byte behind the opcode a text is asked for, and then a byte. -/
theorem fields_read_back_of_greeting :
    ((∀ s, Field.text s ∈ [.text "hello", .coordinates 23 28] → Field.Fits s) ∧ ∃ m r r',
      putAll ⟨Opcode.say, []⟩ [.text "hello", .coordinates 23 28] = ([.ok (), .ok ()], m) ∧
        ofFields Opcode.say [.text "hello", .coordinates 23 28] = .ok m ∧
        Reader.ofFrame m.bytes = .ok r ∧ r.opcode = Opcode.say ∧
        Read.fields [.text, .coordinates] r = (.ok [.text "hello", .coordinates 23 28], r') ∧
        r'.remaining = 0) ∧
    (∃ s : String, 65535 < s.utf8ByteSize ∧ ∃ m, (putAll ⟨Opcode.say, []⟩ [.text "hello"]).2 = m ∧
      m.put (.text s) = (.error (.stringTooLong s.utf8ByteSize), m) ∧
      putAll ⟨Opcode.say, []⟩ ([.text "hello"] ++ .text s :: [.coordinates 23 28]) =
        ((putAll ⟨Opcode.say, []⟩ [.text "hello"]).1 ++ .error (.stringTooLong s.utf8ByteSize) ::
            (m.putAll [.coordinates 23 28]).1,
          (putAll ⟨Opcode.say, []⟩ ([.text "hello"] ++ [.coordinates 23 28])).2)) ∧
    headerSize ≤ [(0x60 : UInt8), 0x02, 0x01].length ∧
      ∃ r, Reader.ofFrame [0x60, 0x02, 0x01] = .ok r ∧ r.offset = headerSize ∧
        Reader.ReadsIn [0x60, 0x02, 0x01] (r.after [.text]) .byte := by
  have hfits : ∀ s, Field.text s ∈ [.text "hello", .coordinates 23 28] → Field.Fits s := by
    intro s hs
    obtain rfl : s = "hello" := by simpa using hs
    decide
  have hheader : headerSize ≤ [(0x60 : UInt8), 0x02, 0x01].length := by decide
  obtain ⟨s, hlong⟩ := Field.exists_not_fits
  have hlong : 65535 < s.utf8ByteSize := Nat.not_le.mp hlong
  obtain ⟨hround, hrefused, hreads⟩ := fields_read_back
  obtain ⟨r, hr, hoffset, hread⟩ := hreads [0x60, 0x02, 0x01] hheader
  exact ⟨⟨hfits, hround Opcode.say _ hfits⟩,
    ⟨s, hlong, hrefused Opcode.say [.text "hello"] [.coordinates 23 28] s hlong⟩,
    hheader, r, hr, hoffset, hread [.text] .byte⟩

end Message

end TileWorld
