import TileWorld.Proofs.Region.Rewriting
import TileWorld.Region.Command

/-!
# What a region goes through

Whatever happens to a region, an entity comes, an entity leaves, or everybody lives on where it is:
`Region.execute_cases`. Living on changes neither what an entity is known by nor whether it is on
the map (`Entity.LivesOn`), so that it is enough to look at comings, leavings and the filing of
everybody anew.
-/

namespace TileWorld

namespace Entity

/-- An entity stays the same to everybody else and does not leave the map. -/
structure LivesOn (t : Terrain) (e e' : Entity) : Prop extends e.Persists e' where
  inside : t.contains e.position = true → t.contains e.oldPosition = true →
    t.contains e'.position = true ∧ t.contains e'.oldPosition = true

variable (t : Terrain) (e : Entity)

theorem LivesOn.refl : e.LivesOn t e := ⟨.refl e, fun hpos hold => ⟨hpos, hold⟩⟩

theorem livesOn_walkTo (p : Point) : e.LivesOn t (e.walkTo p) :=
  ⟨e.persists_walkTo p, fun hpos hold => ⟨hpos, hold⟩⟩

theorem livesOn_freeze : e.LivesOn t e.freeze :=
  ⟨e.persists_freeze, fun hpos _ => ⟨hpos, hpos⟩⟩

theorem livesOn_think (r : RandomStream) : e.LivesOn t (think r e).1 := by
  obtain ⟨hpos, hold, -⟩ := think_keeps r e
  refine ⟨e.persists_think r, ?_⟩
  rw [hpos, hold]
  exact fun hin hin' => ⟨hin, hin'⟩

theorem livesOn_step : e.LivesOn t (e.step t) := by
  refine ⟨persists_step t e, fun hpos hold => ⟨?_, by rwa [(step_keeps t e).1]⟩⟩
  obtain ⟨h, -⟩ | ⟨-, -, -, ⟨hwalkable, h⟩ | h⟩ := step_cases t e
  · rwa [h]
  · rw [h]
    exact Terrain.contains_of_isWalkable hwalkable
  · rwa [h]

theorem livesOn_clearChanges : e.LivesOn t e.clearChanges :=
  ⟨e.persists_clearChanges, fun hpos hold => ⟨hpos, hold⟩⟩

end Entity

namespace Region

/-- A map on which nobody is yet, with the public ids below a limit. -/
def vacant (id : MapId) (terrain : Terrain) (fixtures : List Fixture) (random : RandomStream)
    (limit : UInt16) : Region :=
  { empty id terrain fixtures random with publicIds := { limit } }

theorem find?_vacant (id : MapId) (terrain : Terrain) (fixtures : List Fixture)
    (random : RandomStream) (limit : UInt16) (k : EntityId) :
    (vacant id terrain fixtures random limit).find? k = none :=
  Std.ExtTreeMap.getElem?_empty

variable {g g' : Region}

/-- Everybody lives on where it is, and the index is left alone. -/
structure GoesOn (g g' : Region) : Prop where
  rewrites : Rewrites (Entity.LivesOn g.terrain) g g'
  index : g'.index = g.index

/-- It is enough to see each look-up changed. -/
theorem goesOn_of_find? (hid : g'.id = g.id) (hterrain : g'.terrain = g.terrain)
    (hpublicIds : g'.publicIds = g.publicIds) (hindex : g'.index = g.index)
    (h : ∀ k, ∃ f : Entity → Entity, (∀ e, Entity.LivesOn g.terrain e (f e)) ∧
      g'.find? k = (g.find? k).map f) : g.GoesOn g' :=
  ⟨rewrites_of_find? hid hterrain hpublicIds h, hindex⟩

theorem GoesOn.refl (g : Region) : g.GoesOn g :=
  goesOn_of_find? rfl rfl rfl rfl fun _ =>
    ⟨fun e => e, Entity.LivesOn.refl g.terrain, (Option.map_id' ..).symm⟩

theorem goesOn_walk (g : Region) (id : EntityId) (p : Point) :
    g.GoesOn (g.execute (.walk id p)) := by
  refine goesOn_of_find? rfl rfl rfl rfl fun k => ?_
  have hfind := g.find?_modify id k fun e => e.walkTo p
  by_cases hk : k = id
  · exact ⟨_, fun e => e.livesOn_walkTo g.terrain p, hfind.trans (if_pos hk)⟩
  · refine ⟨fun e => e, Entity.LivesOn.refl g.terrain, (hfind.trans (if_neg hk)).trans ?_⟩
    exact (Option.map_id' ..).symm

/-- An entity comes, an entity leaves, everybody is filed anew, or everybody just lives on. -/
theorem execute_cases (g : Region) (c : Command) :
    (∃ e x g', c = .insert e ∧ g.insert e = .ok (x, g') ∧ g.execute c = g') ∨
      (∃ id e g', c = .remove id ∧ g.remove id = some (e, g') ∧ g.execute c = g') ∨
      (c = .refile ∧ g.execute c = g.refile) ∨ g.GoesOn (g.execute c) := by
  cases c with
  | insert e =>
    rcases h : g.insert e with err | ⟨x, g'⟩
    · exact .inr (.inr (.inr (by simpa [execute, h, Except.toOption] using GoesOn.refl g)))
    · exact .inl ⟨e, x, g', rfl, h, by simp [execute, h, Except.toOption]⟩
  | remove id =>
    rcases h : g.remove id with _ | ⟨e, g'⟩
    · exact .inr (.inr (.inr (by simpa [execute, h] using GoesOn.refl g)))
    · exact .inr (.inl ⟨id, e, g', rfl, h, by simp [execute, h]⟩)
  | refile => exact .inr (.inr (.inl ⟨rfl, rfl⟩))
  | walk id p => exact .inr (.inr (.inr (g.goesOn_walk id p)))
  | freeze =>
    refine .inr (.inr (.inr (goesOn_of_find? rfl rfl rfl rfl fun k => ?_)))
    exact ⟨_, fun e => e.livesOn_freeze g.terrain, g.find?_freeze k⟩
  | think =>
    refine .inr (.inr (.inr (goesOn_of_find? rfl rfl rfl rfl fun k => ?_)))
    obtain ⟨r, hr⟩ := g.find?_think k
    exact ⟨_, fun e => e.livesOn_think g.terrain r, hr⟩
  | step =>
    refine .inr (.inr (.inr (goesOn_of_find? rfl rfl rfl rfl fun k => ?_)))
    exact ⟨_, fun e => e.livesOn_step g.terrain, g.find?_step k⟩
  | clearChanges =>
    refine .inr (.inr (.inr (goesOn_of_find? rfl rfl rfl rfl fun k => ?_)))
    exact ⟨_, fun e => e.livesOn_clearChanges g.terrain, g.find?_clearChanges k⟩

end Region

end TileWorld
