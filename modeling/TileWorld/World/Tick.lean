import TileWorld.Region.Pass
import TileWorld.Region.Spawn
import TileWorld.Visibility.Diff
import TileWorld.World.Membership

/-!
# Ticks

A tick goes through the maps in use in ascending order. On each map everybody thinks and steps,
then what is built into the map does its work, then the players are told what they see, and the
changes that have been asked for meanwhile are carried out before the next map has its turn.
-/

namespace TileWorld

/-- What happened in a tick. -/
structure TickReport where
  /-- The number of the tick. -/
  tick : Nat
  /-- How many maps had their turn. -/
  maps : Nat := 0
  /-- How many messages told players what they see. -/
  deliveries : Nat := 0
  /-- How many monsters came up. -/
  spawned : Nat := 0
  /-- How many entities were taken off their maps. -/
  removed : Nat := 0
  /-- How many entities went to another place. -/
  warped : Nat := 0
deriving DecidableEq, Inhabited

/-- What the fixtures of a map have a hand in while they do their work. -/
structure Bookkeeping where
  /-- The map. -/
  region : Region
  /-- How many identities have been given out. -/
  issued : Nat
  /-- The map of each entity that is on one. -/
  locations : Table EntityId MapId
  /-- Changes that wait for the end of the pass. -/
  deferred : List Deferred
  /-- How many monsters have come up. -/
  spawned : Nat := 0

namespace Bookkeeping

/-- A gate sends the players who stand in it on their way, once the pass is over. -/
def openGate (b : Bookkeeping) (gate : Gate) : Bookkeeping :=
  let inside := b.region.players.filter fun p => gate.area.contains p.position
  { b with deferred := b.deferred ++ inside.map fun p => .warp p.id gate.map gate.target }

/-- A spawn area has its turn. -/
def runSpawn (b : Bookkeeping) (s : SpawnArea) : SpawnArea × Bookkeeping :=
  let fresh := EntityId.nth (b.issued + 1)
  match b.region.spawn s fresh with
  | (.idle, s, region) => (s, { b with region })
  | (.refused, s, region) => (s, { b with region, issued := b.issued + 1 })
  | (.placed, s, region) =>
    (s, { b with
      region
      issued := b.issued + 1
      locations := b.locations.insert fresh region.id
      spawned := b.spawned + 1 })

/-- One fixture does its work. -/
def run (b : Bookkeeping) : Fixture → Fixture × Bookkeeping
  | .gate gate => (.gate gate, b.openGate gate)
  | .spawn s =>
    let (s, b) := b.runSpawn s
    (.spawn s, b)

/-- Several fixtures do their work, one after the other. -/
def runAll (b : Bookkeeping) : List Fixture → List Fixture × Bookkeeping
  | [] => ([], b)
  | f :: fs =>
    let (f, b) := b.run f
    let (fs, b) := b.runAll fs
    (f :: fs, b)

end Bookkeeping

namespace World

/-- The fixtures of a map do their work; gives how many monsters came up. -/
def runFixtures (w : World) (g : Region) : Nat × Region × World :=
  let (fixtures, b) := Bookkeeping.runAll
    { region := g, issued := w.issued, locations := w.locations, deferred := w.deferred } g.fixtures
  (b.spawned, { b.region with fixtures },
    { w with issued := b.issued, locations := b.locations, deferred := b.deferred })

/-- Carries out one change, and counts it if it came about. -/
def applyOne (w : World) : Deferred → (Nat × Nat) × World
  | .remove id cause =>
    match w.remove id cause with
    | some (_, w) => ((1, 0), w)
    | none => ((0, 0), w)
  | .warp id map p =>
    match w.warp id map p with
    | (.ok _, w) => ((0, 1), w)
    | (.error _, w) => ((0, 0), w)

/-- Carries out several changes, and counts the entities that were removed and those that went to
another place. -/
def applyAll (w : World) : List Deferred → (Nat × Nat) × World
  | [] => ((0, 0), w)
  | d :: ds =>
    let ((removed, warped), w) := w.applyOne d
    let ((removed', warped'), w) := w.applyAll ds
    ((removed + removed', warped + warped'), w)

/-- Carries out the changes that wait. -/
def applyDeferred (w : World) : (Nat × Nat) × World :=
  { w with deferred := [] }.applyAll w.deferred

/-- One map has its turn, up to the changes that wait. -/
def passRegion (w : World) (g : Region) (report : TickReport) : TickReport × World :=
  let (spawned, g, w) := w.runFixtures g.advance
  let news := g.synchronize w.config.range
  ({ report with
      maps := report.maps + 1
      spawned := report.spawned + spawned
      deliveries := report.deliveries + news.length },
    { w with regions := w.regions.insert g.id g.clearChanges }.post news)

/-- Carries out the changes that wait, and enters them in the report. -/
def settle (w : World) (report : TickReport) : TickReport × World :=
  let ((removed, warped), w) := w.applyDeferred
  ({ report with removed := report.removed + removed, warped := report.warped + warped }, w)

/-- One map has its turn. -/
def passMap (map : MapId) : TickReport × World → TickReport × World
  | (report, w) =>
    match w.region? map with
    | none => (report, w)
    | some g =>
      let (report, w) := w.passRegion g report
      w.settle report

/-- One tick. Changes that wait although no map has had its turn are carried out in the end. -/
def tick (w : World) : TickReport × World :=
  let w := { w with ticks := w.ticks + 1 }
  -- a map that comes into use meanwhile has no turn in this tick
  let (report, w) := w.regions.keys.foldl (fun s map => passMap map s) ({ tick := w.ticks }, w)
  w.settle report

end World

end TileWorld
