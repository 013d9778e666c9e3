import TileWorld.Entity.Id
import TileWorld.Terrain.Basic

/-!
# Fixtures

What is built into a map: gates, which send players who stand in them somewhere else, and spawn
areas, which keep up a population of monsters.
-/

namespace TileWorld

open Std

/-- An area that sends every player in it to a point of some map. -/
structure Gate where
  /-- Where the gate is. -/
  area : Area
  /-- The map it leads to. -/
  map : MapId
  /-- Where one arrives there. -/
  target : Point
deriving DecidableEq, Inhabited

/-- An area that keeps up a population of monsters. -/
structure SpawnArea where
  /-- Where the monsters appear. -/
  area : Area
  /-- The sort of monsters. -/
  sort : UInt16
  /-- The greatest number of monsters alive at a time. -/
  capacity : Nat
  /-- How many ticks pass idly between two monsters. -/
  interval : Nat
  /-- The monsters from here that may still be on the map. -/
  population : OrderedSet EntityId := ∅
  /-- How many more ticks pass before a monster is due. -/
  countdown : Nat := 0

instance : Inhabited SpawnArea := ⟨{ area := default, sort := 0, capacity := 0, interval := 0 }⟩

/-- One tick of a spawn area's clock, and whether a monster is due now. The clock stands still
while the area is full. -/
def SpawnArea.ready (s : SpawnArea) : Bool × SpawnArea :=
  if s.population.size ≥ s.capacity then (false, s)
  else if s.countdown > 0 then (false, { s with countdown := s.countdown - 1 })
  else (true, { s with countdown := s.interval })

/-- Something built into a map. -/
inductive Fixture where
  /-- A gate. -/
  | gate (g : Gate)
  /-- A spawn area. -/
  | spawn (s : SpawnArea)
deriving Inhabited

end TileWorld
