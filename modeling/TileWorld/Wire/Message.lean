import TileWorld.Wire.Field

/-!
# Messages

A message is an opcode and a payload. On the wire the opcode comes first, as two bytes. Messages
grow by whole fields at the end, and a field that cannot be written leaves no trace.
-/

namespace TileWorld

/-- Length of the opcode on the wire, in bytes. -/
def headerSize : Nat := 2

/-- A message, complete or under construction. -/
structure Message where
  /-- What kind of message it is. -/
  opcode : UInt16
  /-- The fields written so far. -/
  payload : Bytes := []
deriving DecidableEq, Inhabited

namespace Message

/-- The message as it is sent. -/
def bytes (m : Message) : Bytes := Field.ofShort m.opcode ++ m.payload

/-- How many bytes are sent. -/
def length (m : Message) : Nat := headerSize + m.payload.length

/-- A message is empty when it has nothing but its opcode. -/
def isEmpty (m : Message) : Bool := m.payload.isEmpty

/-- The message with one more field. -/
def write (m : Message) (f : Field) : Except WireError Message :=
  f.encode.map fun bs => { m with payload := m.payload ++ bs }

/-- The message made of the given fields. -/
def ofFields (opcode : UInt16) (fs : List Field) : Except WireError Message :=
  fs.foldlM write ⟨opcode, []⟩

/-- The message in a debugging dump. -/
def describe (m : Message) : String :=
  "MessageOut \x7b id: 0x" ++ Hex.word m.opcode ++ ", payload: \"" ++ Hex.bytes m.payload ++
    "\" \x7d"

@[simp] theorem length_bytes (m : Message) : m.bytes.length = m.length := by
  simp [bytes, length, headerSize, Field.ofShort]

theorem isEmpty_iff_length {m : Message} : m.isEmpty = true ↔ m.length = headerSize := by
  simp [isEmpty, length]

theorem write_eq_ok_iff {m m' : Message} {f : Field} :
    m.write f = .ok m' ↔ ∃ bs, f.encode = .ok bs ∧ m' = ⟨m.opcode, m.payload ++ bs⟩ := by
  unfold write
  cases f.encode <;> simp [Except.map, eq_comm]

/-- A message of fields is empty if it has none. -/
@[simp] theorem ofFields_nil (opcode : UInt16) : ofFields opcode [] = .ok ⟨opcode, []⟩ := rfl

end Message

end TileWorld
