import TileWorld.Reach
import TileWorld.World.Action
import TileWorld.World.Tick

/-!
# What can happen to a world

Everything that can be asked of a world, as data. What a world refuses can be asked as well, and
what the refusal leaves behind is then the world. Only one thing is never asked: an entity that is
added comes fresh from its maker, under an identity that the world has given out and that is not
in use.
-/

namespace TileWorld

/-- An entity to which nothing has happened since it was made. -/
inductive Entity.IsNew : Entity → Prop where
  /-- A player's character. -/
  | player (id : EntityId) (looks : Looks) (map : MapId) (p : Point) : IsNew (.player id looks map p)
  /-- A monster. -/
  | monster (id : EntityId) (sort : UInt16) (map : MapId) (p : Point) : IsNew (.monster id sort map p)
  /-- A character without a player. -/
  | npc (id : EntityId) (sort : UInt16) (map : MapId) (p : Point) : IsNew (.npc id sort map p)
  /-- An item. -/
  | item (id : EntityId) (sort : UInt16) (map : MapId) (p : Point) : IsNew (.item id sort map p)

namespace World

/-- Something that is asked of a world. -/
inductive Command where
  /-- A map is taken into use. -/
  | activate (map : MapId)
  /-- An identity is given out. -/
  | allocate
  /-- An entity is added. -/
  | add (e : Entity)
  /-- A character enters. -/
  | enter (name : String)
  /-- An entity leaves. -/
  | remove (id : EntityId) (cause : RemovalCause)
  /-- An entity is to leave at the end of the pass. -/
  | queueRemoval (id : EntityId) (cause : RemovalCause)
  /-- An entity goes to a point of a map. -/
  | warp (id : EntityId) (map : MapId) (p : Point)
  /-- An entity is told to walk to a point. -/
  | walk (id : EntityId) (p : Point)
  /-- An entity attacks. -/
  | attack (id : EntityId)
  /-- An entity speaks. -/
  | say (id : EntityId) (text : String)
  /-- A voice without a speaker speaks. -/
  | announce (map : MapId) (center : Point) (text : String)
  /-- A tick passes. -/
  | tick
deriving Inhabited

/-- The world after something was asked of it. -/
def execute (w : World) : Command → World
  | .activate map => ((w.activate map).toOption.map Prod.snd).getD w
  | .allocate => w.allocateId.2
  | .add e => (w.add e).2
  | .enter name => (w.enter name).2
  | .remove id cause => ((w.remove id cause).map Prod.snd).getD w
  | .queueRemoval id cause => w.queueRemoval id cause
  | .warp id map p => (w.warp id map p).2
  | .walk id p => (w.setDestination id p).toOption.getD w
  | .attack id => (w.attack id).toOption.getD w
  | .say id text => ((w.say id text).toOption.map Prod.snd).getD w
  | .announce map center text => ((w.announce map center text).toOption.map Prod.snd).getD w
  | .tick => w.tick.2

/-- An identity that a world has given out. -/
def Issued (w : World) (id : EntityId) : Prop := ∃ n, 0 < n ∧ n ≤ w.issued ∧ id = .nth n

/-- Whoever is added is new, has an identity that the world has given out, and is on no map. -/
def Admits (w : World) : Command → Prop
  | .add e => e.IsNew ∧ w.Issued e.id ∧ w.mapOf e.id = none
  | _ => True

/-- The worlds that can come about from `w`. -/
def Becomes (w : World) : World → Prop := Reaches execute Admits w

/-- The messages that wait for a player, in the order in which they will be sent. -/
def messagesFor (w : World) (id : EntityId) : List Message :=
  (w.outbox.filter fun d => d.recipient = id).map Delivery.message

end World

end TileWorld
