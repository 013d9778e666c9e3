import TileWorld.Reach
import TileWorld.Region.Pass

/-!
# What can happen to a region

Everything that can happen to the entities of a map, as data: they come, they leave, they are told
to walk, and the passes of a tick go over them. An insertion that the map refuses leaves it as it
was.
-/

namespace TileWorld

namespace Region

/-- Something that happens to a region. -/
inductive Command where
  /-- An entity comes. -/
  | insert (e : Entity)
  /-- An entity leaves. -/
  | remove (id : EntityId)
  /-- An entity is told to walk to a point. -/
  | walk (id : EntityId) (p : Point)
  /-- The positions at the beginning of a tick are noted. -/
  | freeze
  /-- Everybody thinks. -/
  | think
  /-- Everybody takes a step. -/
  | step
  /-- Everybody is filed anew. -/
  | refile
  /-- What happened is forgotten. -/
  | clearChanges
deriving Inhabited

/-- The region after something has happened to it. -/
def execute (g : Region) : Command → Region
  | .insert e => ((g.insert e).toOption.map Prod.snd).getD g
  | .remove id => ((g.remove id).map Prod.snd).getD g
  | .walk id p => g.modify id fun e => e.walkTo p
  | .freeze => g.freeze
  | .think => g.think
  | .step => g.step
  | .refile => g.refile
  | .clearChanges => g.clearChanges

/-- The regions that can come about from `g`. -/
def Becomes (g : Region) : Region → Prop := Reaches execute (fun _ _ => True) g

end Region

end TileWorld
