import TileWorld.Entity.Basic
import TileWorld.Terrain.Fixture

/-!
# Atlases

All that a world has to be told about its maps and characters: what is on a map when it is first
used, how the map is called, and where a known character begins.
-/

namespace TileWorld

/-- A map before anybody is on it. -/
structure MapPlan where
  /-- The grid. -/
  terrain : Terrain
  /-- What is built into the map, in the order in which it works. -/
  fixtures : List Fixture
deriving Inhabited

/-- What is known of a character before it enters the world. -/
structure CharacterRecord where
  /-- How the character looks; its name is the one it enters with. -/
  looks : Looks
  /-- The map it begins on. -/
  map : MapId
  /-- Where on the map it begins. -/
  position : Point
deriving DecidableEq, Inhabited

/-- The source of maps and characters. -/
structure Atlas where
  /-- The plan of a map, if there is such a map. -/
  plan : MapId → Option MapPlan
  /-- The name of a map that players get to see, if it has one. -/
  mapName : MapId → Option String
  /-- What is known of a character of that name, if anything is. -/
  character : String → Option CharacterRecord

end TileWorld
