import TileWorld.Wire.Message

/-!
# Reading messages

A reader stands in a received frame, behind the fields that it has read. A number that is not
there in full leaves the reader where it was. A text is read in two goes, first its length and
then its bytes, so a text that fails leaves the reader behind the length, or behind bytes that
turned out not to be UTF-8.
-/

namespace TileWorld

/-- The kinds of fields. -/
inductive FieldKind where
  /-- A byte. -/
  | byte
  /-- A 16-bit number. -/
  | short
  /-- A 32-bit number. -/
  | long
  /-- A pair of coordinates. -/
  | coordinates
  /-- A text. -/
  | text
deriving DecidableEq, Inhabited

/-- The kind of a field. -/
def Field.kind : Field → FieldKind
  | byte _ => .byte
  | short _ => .short
  | long _ => .long
  | coordinates _ _ => .coordinates
  | text _ => .text

/-- A place in a received frame. -/
structure Reader where
  /-- The opcode of the frame. -/
  opcode : UInt16
  /-- How many bytes of the frame have been read, the opcode included. -/
  offset : Nat
  /-- The bytes that have not been read. -/
  rest : Bytes
deriving DecidableEq, Inhabited

namespace Reader

/-- The place behind the opcode of a frame. -/
def ofFrame : Bytes → Except WireError Reader
  | a :: b :: rest => .ok ⟨UInt16.ofNat (ofLittleEndian [a, b]), headerSize, rest⟩
  | frame => .error (.tooShort headerSize 0 frame.length)

/-- How many bytes are left. -/
def remaining (r : Reader) : Nat := r.rest.length

/-- The length of the whole frame. -/
def length (r : Reader) : Nat := r.offset + r.rest.length

/-- Reads the next `n` bytes, all of them or none. -/
def take (r : Reader) (n : Nat) : Except WireError Bytes × Reader :=
  let head := r.rest.take n
  if head.length < n then (.error (.tooShort n r.offset r.length), r)
  else (.ok head, { r with offset := r.offset + n, rest := r.rest.drop n })

/-- Reads a byte. -/
def byte (r : Reader) : Except WireError UInt8 × Reader :=
  let (head, r) := r.take 1
  (head.map fun bs => UInt8.ofNat (ofLittleEndian bs), r)

/-- Reads a 16-bit number. -/
def short (r : Reader) : Except WireError UInt16 × Reader :=
  let (head, r) := r.take 2
  (head.map fun bs => UInt16.ofNat (ofLittleEndian bs), r)

/-- Reads a 32-bit number. -/
def long (r : Reader) : Except WireError UInt32 × Reader :=
  let (head, r) := r.take 4
  (head.map fun bs => UInt32.ofNat (ofLittleEndian bs), r)

/-- Reads a pair of coordinates. -/
def coordinates (r : Reader) : Except WireError (UInt16 × UInt16) × Reader :=
  match r.short with
  | (.error e, r) => (.error e, r)
  | (.ok x, r) =>
    let (y, r) := r.short
    (y.map fun y => (x, y), r)

/-- Reads a text. -/
def text (r : Reader) : Except WireError String × Reader :=
  match r.short with
  | (.error e, r) => (.error e, r)
  | (.ok n, r) =>
    match r.take n.toNat with
    | (.error e, r) => (.error e, r)
    | (.ok bs, r) =>
      match Field.ofUtf8? bs with
      | some s => (.ok s, r)
      | none => (.error .invalidUtf8, r)

/-- Reads a field of a given kind. -/
def field (r : Reader) : FieldKind → Except WireError Field × Reader
  | .byte => let (v, r) := r.byte; (v.map Field.byte, r)
  | .short => let (v, r) := r.short; (v.map Field.short, r)
  | .long => let (v, r) := r.long; (v.map Field.long, r)
  | .coordinates => let (v, r) := r.coordinates; (v.map fun p => Field.coordinates p.1 p.2, r)
  | .text => let (v, r) := r.text; (v.map Field.text, r)

/-! ### What reading does to the place -/

/-- Bytes that are there are read off the front. -/
theorem take_append (op : UInt16) (off : Nat) (bs rest : Bytes) :
    take ⟨op, off, bs ++ rest⟩ bs.length = (.ok bs, ⟨op, off + bs.length, rest⟩) := by
  simp [take]

/-- A read of bytes that are not there moves nothing. -/
theorem take_of_lt {r : Reader} {n : Nat} (h : r.remaining < n) :
    r.take n = (.error (.tooShort n r.offset r.length), r) := by
  unfold remaining at h
  have h' : min n r.rest.length < n := by omega
  simp [take, h']

/-! ### What was written reads back -/

/-- The reader of a message stands behind the opcode. -/
@[simp] theorem ofFrame_bytes (m : Message) :
    ofFrame m.bytes = .ok ⟨m.opcode, headerSize, m.payload⟩ := by
  have h : UInt16.ofNat (ofLittleEndian (littleEndian 2 m.opcode.toNat)) = m.opcode := by
    have hlt : m.opcode.toNat % Nat.pow 256 2 = m.opcode.toNat :=
      Nat.mod_eq_of_lt m.opcode.toNat_lt
    rw [ofLittleEndian_littleEndian, hlt, UInt16.ofNat_toNat]
  simpa [ofFrame, Message.bytes, Field.ofShort, littleEndian] using h

@[simp] theorem byte_cons (op : UInt16) (off : Nat) (b : UInt8) (rest : Bytes) :
    byte ⟨op, off, b :: rest⟩ = (.ok b, ⟨op, off + 1, rest⟩) := by
  have h := take_append op off [b] rest
  simp only [List.length_singleton, List.singleton_append] at h
  simp [byte, h, Except.map, ofLittleEndian]

@[simp] theorem short_ofShort (op : UInt16) (off : Nat) (v : UInt16) (rest : Bytes) :
    short ⟨op, off, Field.ofShort v ++ rest⟩ = (.ok v, ⟨op, off + 2, rest⟩) := by
  have h := take_append op off (Field.ofShort v) rest
  have hv : v.toNat % 65536 = v.toNat := Nat.mod_eq_of_lt v.toNat_lt
  simp only [Field.ofShort, length_littleEndian] at h
  simp [short, Field.ofShort, h, Except.map, hv]

@[simp] theorem long_ofLong (op : UInt16) (off : Nat) (v : UInt32) (rest : Bytes) :
    long ⟨op, off, Field.ofLong v ++ rest⟩ = (.ok v, ⟨op, off + 4, rest⟩) := by
  have h := take_append op off (Field.ofLong v) rest
  have hv : v.toNat % 4294967296 = v.toNat := Nat.mod_eq_of_lt v.toNat_lt
  simp only [Field.ofLong, length_littleEndian] at h
  simp [long, Field.ofLong, h, Except.map, hv]

@[simp] theorem coordinates_ofCoordinates (op : UInt16) (off : Nat) (x y : UInt16)
    (rest : Bytes) :
    coordinates ⟨op, off, Field.ofCoordinates x y ++ rest⟩ =
      (.ok (x, y), ⟨op, off + 4, rest⟩) := by
  simp [coordinates, Field.ofCoordinates, Except.map]

end Reader

end TileWorld
