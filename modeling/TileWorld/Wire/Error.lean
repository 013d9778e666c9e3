import TileWorld.Text.Hex

/-!
# Wire errors

The ways in which a frame can fail to be written or read, with their wording.
-/

namespace TileWorld

/-- Why a message could not be written or read. -/
inductive WireError where
  /-- A read wanted `needed` bytes at `offset` of a message of `length` bytes in all. -/
  | tooShort (needed offset length : Nat)
  /-- The opcode names no known request. -/
  | unknownMessage (opcode : UInt16)
  /-- A text of so many bytes does not fit a 16-bit length. -/
  | stringTooLong (length : Nat)
  /-- The bytes of a text are not UTF-8. -/
  | invalidUtf8
deriving DecidableEq, Inhabited

/-- The wording of a wire error. -/
def WireError.message : WireError → String
  | tooShort needed offset length =>
    s!"message too short: needed {needed} bytes at offset {offset}, have {length}"
  | unknownMessage opcode => s!"unknown message id 0x{Hex.word opcode}"
  | stringTooLong length => s!"string of {length} bytes exceeds the u16 length prefix"
  | invalidUtf8 => "string payload is not valid UTF-8"

end TileWorld
