import TileWorld.Region.Query
import TileWorld.Visibility.Notice
import TileWorld.World.Basic

/-!
# What players do

Walking, attacking and speaking. Walking and attacking only leave a mark on the entity, which the
next tick makes known; speech is heard at once.
-/

namespace TileWorld

namespace World

/-- An entity sets out for a point of its map. -/
def setDestination (w : World) (id : EntityId) (p : Point) : Except WorldError World :=
  match w.regionOf id with
  | none => .error (.unknownEntity id)
  | some g =>
    if !g.terrain.contains p then .error (.invalidDestination id p)
    else if !g.contains id then .error (.unknownEntity id)
    else .ok (w.setRegion (g.modify id fun e => e.walkTo p))

/-- An entity attacks. -/
def attack (w : World) (id : EntityId) : Except WorldError World :=
  match w.regionOf id with
  | none => .error (.unknownEntity id)
  | some g =>
    if !g.contains id then .error (.unknownEntity id)
    else .ok (w.setRegion (g.modify id fun e => e.raise { attack := true }))

/-- Sends the same message to several players, and counts them. -/
def broadcast (w : World) (recipients : List Entity) (message : Message) : Nat × World :=
  (recipients.length, w.post (Delivery.toAll (recipients.map Entity.id) message))

/-- An entity speaks. All players in range of it hear it, the speaker included. -/
def say (w : World) (id : EntityId) (text : String) : Except WorldError (Nat × World) :=
  match w.regionOf id with
  | none => .error (.unknownEntity id)
  | some g =>
    match g.find? id with
    | none => .error (.unknownEntity id)
    | some speaker =>
      match chatNotice speaker.publicId text with
      | .error err => .error (.wire err)
      | .ok message => .ok (w.broadcast (g.playersAround speaker w.config.range) message)

/-- A voice without a speaker is heard by all players in range of a point. -/
def announce (w : World) (map : MapId) (center : Point) (text : String) :
    Except WorldError (Nat × World) :=
  match w.region? map with
  | none => .error (.unknownMap map)
  | some g =>
    match chatNotice none text with
    | .error err => .error (.wire err)
    | .ok message =>
      .ok (w.broadcast ((g.beingsAround center w.config.range).filter Entity.isPlayer) message)

end World

end TileWorld
