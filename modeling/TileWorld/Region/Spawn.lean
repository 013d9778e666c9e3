import TileWorld.Region.Basic

/-!
# Spawning

How a spawn area brings a monster onto its map. A few random points of the area are tried, and the
monster appears on the first one where somebody can stand.
-/

namespace TileWorld

/-- How many points of an area are tried in a tick. -/
def spawnAttempts : Nat := 10

/-- The first of `attempts` random points of an area on which somebody can stand. -/
def Terrain.findWalkable (t : Terrain) (a : Area) :
    Nat → RandomStream → Option Point × RandomStream
  | 0, r => (none, r)
  | attempts + 1, r =>
    let (p, r) := r.pointIn a
    if t.isWalkable p then (some p, r) else t.findWalkable a attempts r

/-- What became of a spawn area's turn. -/
inductive SpawnOutcome where
  /-- No monster was due, or no place was found for it. -/
  | idle
  /-- The map refused the monster, which had an identity already. -/
  | refused
  /-- The monster is on the map. -/
  | placed
deriving DecidableEq, Inhabited

namespace Region

/-- A spawn area's turn; a monster that comes up is called `fresh`. -/
def spawn (g : Region) (s : SpawnArea) (fresh : EntityId) : SpawnOutcome × SpawnArea × Region :=
  let (due, s) := { s with population := s.population.filter g.contains }.ready
  if !due then (.idle, s, g)
  else
    match g.terrain.findWalkable s.area spawnAttempts g.random with
    -- the points that were tried are drawn all the same
    | (none, random) => (.idle, s, { g with random })
    | (some p, random) =>
      let g := { g with random }
      match g.insert (.monster fresh s.sort g.id p) with
      | .error _ => (.refused, s, g)
      | .ok (_, g) =>
        (.placed, { s with population := s.population.insert fresh },
          g.modify fresh fun e => e.raise { newOnMap := true })

end Region

end TileWorld
