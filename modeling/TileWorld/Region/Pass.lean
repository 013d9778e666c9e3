import TileWorld.Region.Basic

/-!
# Passes over a region

What a tick does to every entity of a map: take note of where it is, let it think, let it step,
file it anew, and in the end forget what happened. Thinking draws from the region's random stream,
entity by entity in ascending order.
-/

namespace TileWorld

namespace Region

/-- Takes note of where everybody is. -/
def freeze (g : Region) : Region :=
  { g with members := g.members.map fun _ e => e.freeze }

/-- Everybody thinks. -/
def think (g : Region) : Region :=
  let (members, random) := g.members.thread Entity.think g.random
  { g with members, random }

/-- Everybody takes a step. -/
def step (g : Region) : Region :=
  { g with members := g.members.map fun _ e => e.step g.terrain }

/-- Files everybody under the zones of their two positions. -/
def refile (g : Region) : Region :=
  { g with index := g.members.foldl (fun x id e =>
      x.file id (x.zoneOf e.oldPosition) (x.zoneOf e.position)) g.index }

/-- Forgets what happened to everybody. -/
def clearChanges (g : Region) : Region :=
  { g with members := g.members.map fun _ e => e.clearChanges }

/-- Everything that happens on a map before anybody is told: the passes in their order. -/
def advance (g : Region) : Region := g.freeze.think.step.refile

/-! ### What the passes do to an entity -/

theorem find?_freeze (g : Region) (id : EntityId) :
    g.freeze.find? id = (g.find? id).map Entity.freeze := Std.ExtTreeMap.getElem?_map

theorem find?_step (g : Region) (id : EntityId) :
    g.step.find? id = (g.find? id).map (Entity.step g.terrain) := Std.ExtTreeMap.getElem?_map

theorem find?_refile (g : Region) (id : EntityId) : g.refile.find? id = g.find? id := rfl

theorem find?_clearChanges (g : Region) (id : EntityId) :
    g.clearChanges.find? id = (g.find? id).map Entity.clearChanges := Std.ExtTreeMap.getElem?_map

/-- Thinking goes through the entities one by one and hands the random stream on. -/
theorem toList_think (g : Region) :
    g.think.members.toList = (threadList Entity.think g.random g.members.toList).1 :=
  toList_thread ..

theorem random_think (g : Region) :
    g.think.random = (threadList Entity.think g.random g.members.toList).2 :=
  snd_thread ..

end Region

end TileWorld
