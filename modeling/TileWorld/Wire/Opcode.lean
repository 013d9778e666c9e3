/-!
# Opcodes

The 16-bit numbers that open each message, and the fixed values of single fields.
-/

namespace TileWorld

namespace Opcode

/-! ### From the server -/

/-- The player is on a map: its name, the position and a zero byte. -/
def mapChange : UInt16 := 0x0100

/-- The answer to a request to enter: a status byte and a public id. -/
def enterReply : UInt16 := 0x0111

/-- A being came into view: its type, its public id and its looks. -/
def beingEnter : UInt16 := 0x0200

/-- A being went out of view: its public id. -/
def beingLeave : UInt16 := 0x0201

/-- Beings moved: for each its public id, a byte of flags, and what the flags announce. -/
def beingsMove : UInt16 := 0x0280

/-- A being attacked: its public id. -/
def beingAttack : UInt16 := 0x0291

/-- Someone spoke: the speaker's public id and the text. -/
def chat : UInt16 := 0x02A0

/-! ### From the client -/

/-- Take control of a character: its name. -/
def enterWorld : UInt16 := 0x0110

/-- Give up the character. -/
def leaveWorld : UInt16 := 0x0112

/-- Walk to a point: its two coordinates. -/
def walk : UInt16 := 0x0260

/-- Attack. -/
def attack : UInt16 := 0x0290

/-- Speak: the text. -/
def say : UInt16 := 0x02A1

end Opcode

/-! ### Field values -/

/-- The flag of a move entry that carries the tile a being stands on. -/
def carriesTile : UInt8 := 1

/-- The flag of a move entry that carries the point a being walks to. -/
def carriesDestination : UInt8 := 2

/-- The outcome of a request to enter the world. -/
inductive EnterStatus where
  /-- The character is in the world. -/
  | accepted
  /-- The character or its map is not available. -/
  | unknown
  /-- The connection already has a character. -/
  | alreadyIn
deriving DecidableEq, Inhabited

/-- The status byte of an answer. -/
def EnterStatus.code : EnterStatus → UInt8
  | accepted => 0
  | unknown => 1
  | alreadyIn => 2

end TileWorld
