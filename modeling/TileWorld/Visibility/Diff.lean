import TileWorld.Region.Query
import TileWorld.Visibility.Notice
import TileWorld.World.Delivery

/-!
# What a player is told in a tick

For every player, what could be seen when the tick began is compared with what can be seen now.
Beings that came into view are announced and beings that went out of view are taken leave of; who
attacked in view is named; and a last notice says how the beings in view have moved.
-/

namespace TileWorld

/-- Part of the news about one being. -/
structure News where
  /-- The notices about the being alone, in the order in which they are sent. -/
  notices : List Message := []
  /-- What the common notice of movement says about the being. -/
  move : Option MoveEntry := none
deriving DecidableEq, Inhabited

namespace Entity

/-- The being was in the viewer's sight when the tick began. Whoever has just come onto the map
had sight of nobody and was in nobody's sight. -/
def wasSeenBy (e viewer : Entity) (range : UInt16) : Bool :=
  !(viewer.changes ∪ e.changes).newOnMap && e.oldPosition.inRange viewer.oldPosition range

/-- The being is in the viewer's sight now. -/
def isSeenBy (e viewer : Entity) (range : UInt16) : Bool :=
  e.position.inRange viewer.position range

/-- The viewer is told that the being attacked. -/
def attackIsSeenBy (e viewer : Entity) (range : UInt16) : Bool :=
  e.changes.attack && e.publicId != viewer.publicId && e.isSeenBy viewer range

/-- What the notice of movement says about a being in view; `known` says that the viewer knew the
being before. A being that still walks is given by its tile, and its destination is added when it
is news; a being at rest is given by the point where it stands. -/
def moveEntry (e : Entity) (publicId : PublicId) (known : Bool) : MoveEntry :=
  if e.position = e.destination then ⟨publicId, none, some e.destination⟩
  else ⟨publicId, some e.position.tile,
    if !known || e.changes.newDestination then some e.destination else none⟩

/-- The news about a being for a viewer. -/
def newsFor (e viewer : Entity) (range : UInt16) : Except WireError News :=
  match e.publicId with
  | none => .ok {}
  | some publicId =>
    let attack := if e.attackIsSeenBy viewer range then [attackNotice publicId] else []
    match e.wasSeenBy viewer range, e.isSeenBy viewer range with
    | false, false => .ok { notices := attack }
    -- out of view
    | true, false => .ok { notices := attack ++ [leaveNotice publicId] }
    -- into view, with an entry that says where it walks
    | false, true => do
      let enter ← e.enterNotice publicId
      return { notices := attack ++ [enter], move := some (e.moveEntry publicId false) }
    -- in view as before: it is news only that it moved
    | true, true =>
      let move := if e.oldPosition = e.position then none else some (e.moveEntry publicId true)
      .ok { notices := attack, move }

end Entity

/-- All the news in the order in which it is sent: the notices about single beings, and then the
notice of movement, unless nobody moved. -/
def News.messages (news : List News) : List Message :=
  let moves := news.filterMap News.move
  news.flatMap News.notices ++ if moves.isEmpty then [] else [MoveEntry.notice moves]

namespace Region

/-- What a viewer is told in a tick. -/
def diff (g : Region) (viewer : Entity) (range : UInt16) : Except WireError (List Message) := do
  let news ← (g.beingsConcerning viewer range).mapM fun e => e.newsFor viewer range
  return News.messages news

/-- What all players of a region are told in a tick, player by player. A player whose news cannot
be written gets nothing, and the others get theirs. -/
def synchronize (g : Region) (range : UInt16) : List Delivery :=
  g.players.flatMap fun viewer =>
    match g.diff viewer range with
    | .ok messages => messages.map fun message => ⟨viewer.id, message⟩
    | .error _ => []

end Region

end TileWorld
