import TileWorld.Entity.Id
import TileWorld.Wire.Message

/-!
# Deliveries

A message on its way to a player.
-/

namespace TileWorld

/-- A message and the player who gets it. -/
structure Delivery where
  /-- The player. -/
  recipient : EntityId
  /-- What the player is told. -/
  message : Message
deriving DecidableEq, Inhabited

namespace Delivery

/-- The same message for each of several players. -/
def toAll (recipients : List EntityId) (message : Message) : List Delivery :=
  recipients.map fun recipient => ⟨recipient, message⟩

end Delivery

end TileWorld
