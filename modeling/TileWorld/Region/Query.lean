import TileWorld.Region.Basic

/-!
# Who is near

The questions that a region answers about nearness. Each is answered through the index of zones,
in ascending order of identities: entities filed in zones near by are looked at one by one.
-/

namespace TileWorld

namespace Region

/-- The entities filed near the box around `a` and `b` grown by `range`. -/
def candidates (g : Region) (a b : Point) (range : UInt16) : List Entity :=
  (g.index.entitiesIn (g.index.boxAround a b range)).filterMap g.find?

/-- The beings that are in range of a point. -/
def beingsAround (g : Region) (center : Point) (range : UInt16) : List Entity :=
  (g.candidates center center range).filter fun e =>
    e.isBeing && e.position.inRange center range

/-- A being concerns a viewer when one of its two positions, before and now, is in range of one of
the viewer's two. -/
def concerns (e viewer : Entity) (range : UInt16) : Bool :=
  e.isBeing && [e.oldPosition, e.position].any fun p =>
    p.inRange viewer.oldPosition range || p.inRange viewer.position range

/-- The beings that concern a viewer; the viewer may be one of them. -/
def beingsConcerning (g : Region) (viewer : Entity) (range : UInt16) : List Entity :=
  (g.candidates viewer.oldPosition viewer.position range).filter fun e => concerns e viewer range

/-- The players that are in range of a thing. -/
def playersAround (g : Region) (thing : Entity) (range : UInt16) : List Entity :=
  (g.candidates thing.position thing.position range).filter fun e =>
    e.isPlayer && e.position.inRange thing.position range

end Region

end TileWorld
