import TileWorld.Atlas
import TileWorld.Region.Basic
import TileWorld.World.Delivery
import TileWorld.World.Error

/-!
# Worlds

A world is the set of maps in use, a list of where everybody is, and a few queues: messages that
wait to be sent, changes that wait for the end of a pass, players that were lost, and calls that
wait for the scripts. Maps come into use when they are first needed and stay in use.
-/

namespace TileWorld

/-- What can be set about a world. -/
structure WorldConfig where
  /-- Half-width of the area of interest, in pixels. -/
  range : UInt16 := interestRange
  /-- The seed of the random streams of all maps. -/
  seed : UInt64 := 0x5EED
  /-- The map on which unknown characters begin. -/
  startMap : MapId := ⟨1⟩
  /-- Where on that map they begin. -/
  startPosition : Point := ⟨1600, 1600⟩
deriving DecidableEq, Inhabited

/-- Why an entity leaves its map. -/
inductive RemovalCause where
  /-- Its player went away. -/
  | disconnect
  /-- It died. -/
  | death
  /-- It is no longer wanted. -/
  | despawn
  /-- It goes to another place. -/
  | warp
deriving DecidableEq, Inhabited

/-- A change that waits for the end of a pass. -/
inductive Deferred where
  /-- An entity leaves its map. -/
  | remove (entity : EntityId) (cause : RemovalCause)
  /-- An entity goes to a point of a map. -/
  | warp (entity : EntityId) (map : MapId) (target : Point)
deriving DecidableEq, Inhabited

/-- A call for the scripts. -/
inductive ScriptCall where
  /-- An entity died. -/
  | died (entity : Entity)
  /-- An entity has left its map. -/
  | removed (entity : Entity)
deriving DecidableEq, Inhabited

/-- A world. -/
structure World where
  /-- What was set. -/
  config : WorldConfig
  /-- The source of maps and characters. -/
  atlas : Atlas
  /-- The maps in use. -/
  regions : Table MapId Region := ∅
  /-- The map of each entity that is on one. -/
  locations : Table EntityId MapId := ∅
  /-- Messages that wait to be sent, the oldest first. -/
  outbox : List Delivery := []
  /-- Changes that wait for the end of a pass, the oldest first. -/
  deferred : List Deferred := []
  /-- How many identities have been given out. -/
  issued : Nat := 0
  /-- How many ticks have passed. -/
  ticks : Nat := 0
  /-- Players that fell out of the world while somebody still played them, the oldest first. -/
  lost : List EntityId := []
  /-- Calls for the scripts, the oldest first. -/
  calls : List ScriptCall := []

namespace World

/-- A world in which there is nothing yet. -/
def empty (config : WorldConfig) (atlas : Atlas) : World := { config, atlas }

/-- The map of an entity. -/
def mapOf (w : World) (id : EntityId) : Option MapId := w.locations[id]?

/-- A map in use. -/
def region? (w : World) (map : MapId) : Option Region := w.regions[map]?

/-- The map of an entity, as a region in use. -/
def regionOf (w : World) (id : EntityId) : Option Region := w.mapOf id >>= w.region?

/-- An entity that is on a map. -/
def entity? (w : World) (id : EntityId) : Option Entity := do (← w.regionOf id).find? id

/-- Puts a region in the place of the one with its number. -/
def setRegion (w : World) (g : Region) : World := { w with regions := w.regions.insert g.id g }

/-- Gives out an identity that was never given out before. -/
def allocateId (w : World) : EntityId × World :=
  (.nth (w.issued + 1), { w with issued := w.issued + 1 })

/-- Takes a map into use if it is not, and gives it. -/
def activate (w : World) (map : MapId) : Except WorldError (Region × World) :=
  match w.region? map with
  | some g => .ok (g, w)
  | none =>
    match w.atlas.plan map with
    | none => .error (.unknownMap map)
    | some plan =>
      let g := .empty map plan.terrain plan.fixtures (.ofMap w.config.seed map.val)
      .ok (g, { w with regions := w.regions.insert map g })

/-- Queues messages. -/
def post (w : World) (ds : List Delivery) : World := { w with outbox := w.outbox ++ ds }

/-- Takes the queued messages. -/
def takeDeliveries (w : World) : List Delivery × World := (w.outbox, { w with outbox := [] })

/-- Takes the list of lost players. -/
def takeLost (w : World) : List EntityId × World := (w.lost, { w with lost := [] })

/-- Takes the calls for the scripts. -/
def takeCalls (w : World) : List ScriptCall × World := (w.calls, { w with calls := [] })

/-- The world in a debugging dump. -/
def describe (w : World) : String :=
  "WorldState \x7b tick: " ++ toString w.ticks ++ ", maps: " ++ toString w.regions.size ++
    ", entities: " ++ toString w.locations.size ++ ", queued: " ++ toString w.outbox.length ++
    " \x7d"

end World

end TileWorld
