import TileWorld.Region.Query
import TileWorld.Visibility.Notice
import TileWorld.World.Basic

/-!
# Coming and going

How entities come into a world, leave it, and go from one place to another. Whoever leaves is
taken leave of at once; whoever comes is announced by the next tick. A player that comes onto a
map is told so.
-/

namespace TileWorld

namespace World

/-- The name of a map that a player gets to see; a map without a name goes by its number. -/
def mapTitle (w : World) (map : MapId) : String := (w.atlas.mapName map).getD (toString map.val)

/-- Tells a player that it is on a map, unless the name of the map cannot be written. -/
def postArrival (w : World) (id : EntityId) (map : MapId) (p : Point) : World :=
  match mapNotice (w.mapTitle map) p with
  | .ok message => w.post [⟨id, message⟩]
  | .error _ => w

/-- Puts an entity on its map, marked as new there. The map is taken into use even if it refuses
the entity. -/
def add (w : World) (e : Entity) : Except WorldError PublicId × World :=
  if w.locations.contains e.id then (.error (.insertion (.duplicate e.id)), w)
  else
    match w.activate e.map with
    | .error err => (.error err, w)
    | .ok (g, w) =>
      match g.insert e with
      -- the map stays in use
      | .error err => (.error (.insertion err), w)
      | .ok (publicId, g) =>
        let g := g.modify e.id fun e => e.raise { newOnMap := true }
        let w := { w with
          regions := w.regions.insert e.map g
          locations := w.locations.insert e.id e.map }
        (.ok publicId, if e.isPlayer then w.postArrival e.id e.map e.position else w)

/-- The messages by which players take leave of an entity: all players in range of it are told,
except itself. Items were never seen, so nobody takes leave of them. -/
def farewells (w : World) (g : Region) (e : Entity) : List Delivery :=
  match e.isBeing, e.publicId with
  | true, some publicId =>
    let viewers := (g.playersAround e w.config.range).filter fun p => p.id ≠ e.id
    Delivery.toAll (viewers.map Entity.id) (leaveNotice publicId)
  | _, _ => []

/-- Takes an entity off its map. The scripts are told of a death first and then of the removal. -/
def remove (w : World) (id : EntityId) (cause : RemovalCause) : Option (Entity × World) := do
  let map ← w.mapOf id
  let g ← w.region? map
  let leaving ← g.find? id
  let (e, g') ← g.remove id
  let death := if cause = .death then [ScriptCall.died e] else []
  return (e, { w with
    regions := w.regions.insert map g'
    locations := w.locations.erase id
    outbox := w.outbox ++ w.farewells g leaving
    calls := w.calls ++ death ++ [.removed e] })

/-- Lets an entity leave its map at the end of the pass. -/
def queueRemoval (w : World) (id : EntityId) (cause : RemovalCause) : World :=
  { w with deferred := w.deferred ++ [.remove id cause] }

/-- Sends an entity to a point of a map, which may be its own. A target that does not exist leaves
the entity where it is; an entity that its new map refuses is gone, and a player that is gone in
this way is lost. -/
def warp (w : World) (id : EntityId) (map : MapId) (p : Point) :
    Except WorldError PublicId × World :=
  if !w.locations.contains id then (.error (.unknownEntity id), w)
  else
    match w.activate map with
    | .error err => (.error err, w)
    | .ok (g, w) =>
      if !g.terrain.contains p then (.error (.invalidDestination id p), w)
      else
        match w.remove id .warp with
        | none => (.error (.unknownEntity id), w)
        | some (e, w) =>
          -- the entity has left its map, so that its own public id is free
          match w.add (e.place map p) with
          | (.ok publicId, w) => (.ok publicId, w)
          | (.error err, w) =>
            (.error err, if e.isPlayer then { w with lost := w.lost ++ [id] } else w)

/-- What is known of a character; a name of which nothing is known belongs to a new character at
the start of the world. -/
def characterOf (w : World) (name : String) : CharacterRecord :=
  (w.atlas.character name).getD
    { looks := { name }, map := w.config.startMap, position := w.config.startPosition }

/-- Brings a character into the world, under a new identity, which is used up even if the
character cannot come in. -/
def enter (w : World) (name : String) : Except WorldError (EntityId × PublicId) × World :=
  let record := w.characterOf name
  let (id, w) := w.allocateId
  let (outcome, w) := w.add (.player id record.looks record.map record.position)
  (outcome.map fun publicId => (id, publicId), w)

end World

end TileWorld
