import TileWorld.Region.Basic
import TileWorld.Wire.Error

/-!
# World errors

The ways in which something asked of a world can fail, with their wording.
-/

namespace TileWorld

/-- Why a world did not do what it was asked. -/
inductive WorldError where
  /-- An entity could not be put on a map. -/
  | insertion (cause : InsertError)
  /-- There is no such map. -/
  | unknownMap (map : MapId)
  /-- The entity is on no map. -/
  | unknownEntity (entity : EntityId)
  /-- An entity cannot go to a point because it is not on the map. -/
  | invalidDestination (entity : EntityId) (point : Point)
  /-- A message could not be written. -/
  | wire (cause : WireError)
deriving DecidableEq, Inhabited

/-- The wording of a world error. -/
def WorldError.message : WorldError → String
  | insertion cause => cause.message
  | unknownMap map => s!"unknown {map.render}"
  | unknownEntity entity => s!"unknown entity {entity.render}"
  | invalidDestination entity point =>
    s!"{point.render} is not a valid destination for entity {entity.render}"
  | wire cause => cause.message

end TileWorld
