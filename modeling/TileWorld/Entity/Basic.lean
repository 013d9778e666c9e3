import TileWorld.Entity.Changes
import TileWorld.Entity.Id
import TileWorld.Entity.Wanderer
import TileWorld.Terrain.Basic

/-!
# Entities

Everything that sits on a map: items, which only lie there, and beings, which can walk. Of the
beings, players are told what goes on around them, monsters wander, and the other characters wait
to be spoken to.
-/

namespace TileWorld

/-- How a player's character looks. -/
structure Looks where
  /-- Name of the character. -/
  name : String
  /-- Hair style. -/
  hairStyle : UInt8 := 0
  /-- Hair color. -/
  hairColor : UInt8 := 0
  /-- Gender, 0 for male and 1 for female. -/
  gender : UInt8 := 0
deriving DecidableEq, Inhabited

/-- What an entity is. -/
inductive EntityKind where
  /-- An object on the ground. -/
  | item (sort : UInt16)
  /-- A character with a player behind it. -/
  | player (looks : Looks)
  /-- A monster of some sort, with its mind. -/
  | monster (sort : UInt16) (mind : Wanderer)
  /-- A character without a player. -/
  | npc (sort : UInt16)
deriving DecidableEq, Inhabited

/-- The number of a kind on the wire. -/
def EntityKind.code : EntityKind → UInt8
  | item _ => 0
  | player _ => 1
  | monster _ _ => 2
  | npc _ => 3

/-- Pixels that a walking entity advances in a tick, on each axis. -/
def walkingSpeed : UInt16 := 8

/-- An entity. -/
structure Entity where
  /-- Its identity. -/
  id : EntityId
  /-- Its number on the map it is on. -/
  publicId : Option PublicId := none
  /-- The map it belongs to. -/
  map : MapId
  /-- Where it is. -/
  position : Point
  /-- Where it was when the tick began. -/
  oldPosition : Point := position
  /-- Where it walks to; where it is when it is at rest. -/
  destination : Point := position
  /-- Pixels that it advances in a tick, on each axis. -/
  speed : UInt16 := walkingSpeed
  /-- What happened to it since the flags were last cleared. -/
  changes : Changes := {}
  /-- What it is. -/
  kind : EntityKind
deriving DecidableEq, Inhabited

namespace Entity

/-! ### New entities, at rest -/

/-- A player's character. -/
def player (id : EntityId) (looks : Looks) (map : MapId) (p : Point) : Entity :=
  { id, map, position := p, kind := .player looks }

/-- A monster whose home is where it appears. -/
def monster (id : EntityId) (sort : UInt16) (map : MapId) (p : Point) : Entity :=
  { id, map, position := p, kind := .monster sort { home := p } }

/-- A character without a player; it stays where it is. -/
def npc (id : EntityId) (sort : UInt16) (map : MapId) (p : Point) : Entity :=
  { id, map, position := p, speed := 0, kind := .npc sort }

/-- An item on the ground. -/
def item (id : EntityId) (sort : UInt16) (map : MapId) (p : Point) : Entity :=
  { id, map, position := p, speed := 0, kind := .item sort }

/-! ### What an entity can do -/

/-- Beings show up in what players see; items do not. -/
def isBeing (e : Entity) : Bool :=
  match e.kind with
  | .item _ => false
  | _ => true

/-- The looks of a player's character. -/
def looks? (e : Entity) : Option Looks :=
  match e.kind with
  | .player looks => some looks
  | _ => none

/-- A player's character. -/
def isPlayer (e : Entity) : Bool := e.looks?.isSome

/-- The sort and the mind of a monster. -/
def monster? (e : Entity) : Option (UInt16 × Wanderer) :=
  match e.kind with
  | .monster sort mind => some (sort, mind)
  | _ => none

/-! ### What happens to an entity -/

/-- Something happened. -/
def raise (e : Entity) (c : Changes) : Entity := { e with changes := e.changes ∪ c }

/-- Starts to walk to a point. -/
def walkTo (e : Entity) (p : Point) : Entity :=
  { e with destination := p }.raise { newDestination := true }

/-- Takes note of where the entity is as the tick begins. -/
def freeze (e : Entity) : Entity := { e with oldPosition := e.position }

/-- Forgets what happened. -/
def clearChanges (e : Entity) : Entity := { e with changes := {} }

/-- Puts the entity at rest on a map, as if nothing had happened to it. -/
def place (e : Entity) (map : MapId) (p : Point) : Entity :=
  { e with map, position := p, oldPosition := p, destination := p, changes := {} }

/-- A monster thinks and may start to walk; everything else waits. -/
def think (r : RandomStream) (e : Entity) : Entity × RandomStream :=
  match e.kind with
  | .monster sort mind =>
    let (target, mind, r) := mind.think e.position e.destination r
    let e := { e with kind := .monster sort mind }
    (target.elim e e.walkTo, r)
  | _ => (e, r)

/-- One step toward the destination. An entity that cannot take the step because nobody can stand
there stops where it is. -/
def step (t : Terrain) (e : Entity) : Entity :=
  if !e.isBeing || e.position = e.destination || e.speed = 0 then e
  else
    let next := e.position.stepToward e.destination e.speed
    if t.isWalkable next then { e with position := next }
    else { e with destination := e.position }

/-! ### What stays the same -/

@[simp] theorem isPlayer_eq_true_iff {e : Entity} :
    e.isPlayer = true ↔ ∃ looks, e.kind = .player looks := by
  unfold isPlayer looks?
  cases e.kind <;> simp

/-- Players are beings. -/
theorem isBeing_of_isPlayer {e : Entity} (h : e.isPlayer = true) : e.isBeing = true := by
  obtain ⟨looks, h⟩ := isPlayer_eq_true_iff.mp h
  simp [isBeing, h]

end Entity

end TileWorld
