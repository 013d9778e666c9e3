import TileWorld.Entity.Id
import TileWorld.Wire.Message
import TileWorld.Wire.Opcode

/-!
# Replies

The only message that answers a request directly: whether a character could enter the world.
-/

namespace TileWorld

/-- The answer to a request to enter: a status, and the public id of the character if it is in the
world. -/
def enterReply (status : UInt8) (publicId : Option PublicId) : Message :=
  ⟨Opcode.enterReply, status :: Field.ofShort (PublicId.wire publicId)⟩

end TileWorld
