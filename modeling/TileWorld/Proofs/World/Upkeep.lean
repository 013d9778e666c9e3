import TileWorld.Proofs.Region.Allotment
import TileWorld.Proofs.World.Pacing

/-!
# What lasts on a map

Whatever happens in a world, a map in use keeps the ground that its plan gives it, and it never loses
a public id: at any moment an id is free there exactly when nobody has it (`Region.Upkept`). This
holds of every map in use (`World.Upkept.develops`), whether or not identities have come round.
-/

namespace TileWorld

namespace Region

variable {m : MapId} {plan : MapPlan} {g g' : Region} {e : Entity} {x : PublicId} {id : EntityId}

/-- The map has the ground of its plan, and all public ids but that of nobody are given out or free. -/
structure Upkept (m : MapId) (plan : MapPlan) (g : Region) : Prop where
  id_eq : g.id = m
  terrain : g.terrain = plan.terrain
  allotted : g.Allotted PublicId.nobody.val

theorem Upkept.insert (hg : g.Upkept m plan) (h : g.insert e = .ok (x, g')) : g'.Upkept m plan where
  id_eq := (id_of_insert h).trans hg.id_eq
  terrain := by
    obtain ⟨-, -, -, publicIds, -, rfl⟩ := insert_eq_ok_iff.mp h
    exact hg.terrain
  allotted := hg.allotted.insert h

/-- A map stays in order when an entity leaves, whose public id is free then. -/
theorem Upkept.remove (hg : g.Upkept m plan) (h : g.remove id = some (e, g')) : g'.Upkept m plan where
  id_eq := (id_of_remove h).trans hg.id_eq
  terrain := by
    obtain ⟨e₀, -, -, rfl⟩ := remove_eq_some_iff.mp h
    exact hg.terrain
  allotted := hg.allotted.remove h

theorem Upkept.rewrite {S : Entity → Entity → Prop} (hg : g.Upkept m plan) (h : Rewrites S g g')
    (hS : ∀ e e', S e e' → e'.publicId = e.publicId) : g'.Upkept m plan where
  id_eq := h.id.trans hg.id_eq
  terrain := h.terrain.trans hg.terrain
  allotted := hg.allotted.rewrite h hS

theorem Upkept.modify (hg : g.Upkept m plan) (id : EntityId) {f : Entity → Entity}
    (hf : ∀ e, (f e).publicId = e.publicId) : (g.modify id f).Upkept m plan := by
  refine hg.rewrite (rewrites_modify g id f) fun e e' he' => ?_
  obtain rfl | rfl := he'
  · rfl
  · exact hf e

/-- What is built into a map and its random stream do not matter. -/
theorem Upkept.congr (hg : g.Upkept m plan) (random : RandomStream) (fixtures : List Fixture) :
    Upkept m plan { g with random, fixtures } :=
  ⟨hg.id_eq, hg.terrain, hg.allotted.bound, hg.allotted.wellFormed, hg.allotted.taken,
    hg.allotted.distinct, hg.allotted.free_iff⟩

theorem Upkept.advance (hg : g.Upkept m plan) : g.advance.Upkept m plan := by
  refine hg.rewrite (rewrites_advance g) fun e e' he' => ?_
  obtain ⟨r, rfl⟩ := he'
  exact (e.persists_live g.terrain r).publicId

theorem Upkept.clearChanges (hg : g.Upkept m plan) : g.clearChanges.Upkept m plan := by
  refine hg.rewrite (rewrites_clearChanges g) fun e e' he' => ?_
  rw [he']
  rfl

end Region

/-- Monsters that come up take public ids as everybody does. -/
theorem Bookkeeping.kept_upkept (m : MapId) (plan : MapPlan) :
    Kept fun b => b.region.Upkept m plan where
  draws b random hb := hb.congr random b.region.fixtures
  wastes _ hb := hb
  sends _ _ _ _ _ hb := hb
  spawns _ _ _ _ _ hb hins := (hb.insert hins).modify _ fun _ => rfl

namespace World

variable {t : Terms} {atlas : Atlas} {w w' : World} {map : MapId} {g : Region} {id : EntityId}
  {e : Entity} {x : PublicId}

/-- Every map in use has a plan, and has kept what its plan gives it. -/
def Upkept (atlas : Atlas) (w : World) : Prop :=
  ∀ m g, w.region? m = some g → ∃ plan, atlas.plan m = some plan ∧ g.Upkept m plan

theorem upkept_empty (config : WorldConfig) (atlas : Atlas) : (empty config atlas).Upkept atlas := by
  intro m g hg
  simp [empty, region?] at hg

/-- It is enough to look at the one map that has changed. -/
theorem Upkept.update (hw : w.Upkept atlas) {plan : MapPlan} (hplan : atlas.plan map = some plan)
    (hg : g.Upkept map plan)
    (hregion : ∀ m, w'.region? m = if m = map then some g else w.region? m) : w'.Upkept atlas := by
  intro m g' hg'
  rw [hregion] at hg'
  split at hg'
  · rename_i hm
    cases hg'
    exact ⟨plan, hm ▸ hplan, hm ▸ hg⟩
  · exact hw m g' hg'

theorem Upkept.congr (hw : w.Upkept atlas) (hregions : w'.regions = w.regions) : w'.Upkept atlas :=
  fun m g hg => hw m g (by rwa [region?, hregions] at hg)

theorem Upkept.remove (hw : w.Upkept atlas) {cause : RemovalCause}
    (h : w.remove id cause = some (e, w')) : w'.Upkept atlas := by
  obtain ⟨map, g, leaving, g', -, hg, -, hrem, rfl⟩ := remove_eq_some_iff.mp h
  obtain ⟨plan, hplan, hkept⟩ := hw map g hg
  exact hw.update hplan (hkept.remove hrem) fun _ => Table.getElem?_insert ..

theorem Upkept.welcome (hw : w.Upkept atlas) {g g' : Region} (h : w.Comes e x g g') :
    (w.welcome e g').Upkept atlas := by
  obtain ⟨plan, hplan, hkept⟩ := hw e.map g h.region
  have hmarked : (g'.mark e.id).Upkept e.map plan := (hkept.insert h.insert).modify _ fun _ => rfl
  exact hw.update hplan hmarked fun _ => Table.getElem?_insert ..

theorem Upkept.act (hw : w.Upkept atlas) (hg : w.region? map = some g) (id : EntityId)
    {f : Entity → Entity} (hf : ∀ e, (f e).publicId = e.publicId) :
    (w.setRegion (g.modify id f)).Upkept atlas := by
  obtain ⟨plan, hplan, hkept⟩ := hw map g hg
  refine hw.update hplan (hkept.modify id hf) fun m => ?_
  rw [← hkept.id_eq]
  exact Table.getElem?_insert ..

/-- A map stays in order in its turn, in which monsters may come up. -/
theorem Upkept.turn (hw : w.Upkept atlas) (hg : w.region? map = some g) (report : TickReport) :
    (w.passRegion g report).2.Upkept atlas := by
  obtain ⟨plan, hplan, hkept⟩ := hw map g hg
  have hworked : (w.worked g).region.Upkept map plan :=
    (Bookkeeping.kept_upkept map plan).runAll (b := w.books g) hkept.advance g.fixtures
  have hcleared : (w.arranged g).clearChanges.Upkept map plan := (hworked.congr _ _).clearChanges
  refine hw.update hplan hcleared fun m => ?_
  rw [← hcleared.id_eq, snd_passRegion]
  exact Table.getElem?_insert ..

/-- When a map comes into use, it is as its plan says. -/
theorem upkept_regionOfPlan (w : World) (map : MapId) (plan : MapPlan) :
    (w.regionOfPlan map plan).Upkept map plan := by
  refine ⟨rfl, rfl, ?_⟩
  exact Region.allotted_vacant map plan.terrain plan.fixtures (.ofMap w.config.seed map.val) _

/-- A map that comes into use is as its plan has it. -/
theorem Upkept.opened (hw : w.Upkept atlas) {plan : MapPlan} (hplan : atlas.plan map = some plan) :
    (w.opened map plan).Upkept atlas :=
  hw.update hplan (w.upkept_regionOfPlan map plan) fun _ => Table.getElem?_insert ..

theorem Upkept.alters (hw : w.Upkept atlas) (hatlas : w.atlas = atlas) (h : Alters t w w') :
    w'.Upkept atlas := by
  cases h with
  | opens _ hplan => exact hw.opened (hatlas ▸ hplan)
  | comes h => exact hw.welcome h
  | leaves h => exact hw.remove h
  | jumps h h' => exact (hw.remove h).welcome h'
  | @falls w₁ id e h =>
    rcases e.isPlayer
    · exact hw.remove h
    · exact (hw.remove h).congr rfl
  | walks hg id p => exact hw.act hg id fun e => (e.persists_walkTo p).publicId
  | attacks hg id => exact hw.act hg id fun e => rfl
  | turns hg report => exact hw.turn hg report
  | issues | speaks | notes => exact hw.congr rfl

/-- All maps stay in order whatever happens. -/
theorem Upkept.develops (hw : w.Upkept atlas) (hatlas : w.atlas = atlas) (h : Develops t w w') :
    w'.Upkept atlas ∧ w'.atlas = atlas :=
  h.keeps (P := fun v => v.Upkept atlas ∧ v.atlas = atlas)
    (fun h hv => ⟨hv.1.alters hv.2 h, h.atlas_eq.trans hv.2⟩) ⟨hw, hatlas⟩

/-- A map that has a plan is in use or can be taken into use. -/
theorem Upkept.exists_activate (hw : w.Upkept atlas) (hatlas : w.atlas = atlas) {plan : MapPlan}
    (hplan : atlas.plan map = some plan) :
    ∃ g w', w.activate map = .ok (g, w') ∧ g.Upkept map plan ∧ w'.Upkept atlas := by
  rcases hg : w.region? map with _ | g
  · exact ⟨_, _, activate_eq_ok_iff.mpr (.inr ⟨hg, plan, hatlas ▸ hplan, rfl, rfl⟩),
      w.upkept_regionOfPlan map plan, hw.opened hplan⟩
  · obtain ⟨plan', hplan', hkept⟩ := hw map g hg
    obtain rfl : plan' = plan := Option.some.inj (hplan'.symm.trans hplan)
    exact ⟨g, w, activate_eq_ok_iff.mpr (.inl ⟨hg, rfl⟩), hkept, hw⟩

end World

end TileWorld
