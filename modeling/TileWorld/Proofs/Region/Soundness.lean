import TileWorld.Proofs.Region.Index
import TileWorld.Proofs.Region.Numbering

/-!
# Sound regions

A region is sound when everybody on it is where it should be, its index is right, and everybody
has its own public id (`Region.Sound`). It is sound while it is empty, and it stays sound when
entities come, leave, are changed where they are, and go through the passes of a tick.
-/

namespace TileWorld

namespace Entity

/-- Nothing has happened to the entity yet, and it is on its way to nowhere. -/
structure AtRest (e : Entity) : Prop where
  oldPosition : e.oldPosition = e.position
  destination : e.destination = e.position
  changes : e.changes = {}

theorem atRest_place (e : Entity) (map : MapId) (p : Point) : (e.place map p).AtRest :=
  ⟨rfl, rfl, rfl⟩

/-- The entity as it is on its map when it has just come. -/
def arrived (e : Entity) (x : PublicId) : Entity :=
  { e with publicId := some x }.raise { newOnMap := true }

@[simp] theorem newOnMap_arrived (e : Entity) (x : PublicId) :
    (e.arrived x).changes.newOnMap = true := Bool.or_true _

/-- Something happens to an entity that stays where it is. -/
structure Stays (e e' : Entity) : Prop extends e.Persists e' where
  position : e'.position = e.position
  oldPosition : e'.oldPosition = e.oldPosition

theorem Stays.refl (e : Entity) : e.Stays e := ⟨.refl e, rfl, rfl⟩

theorem stays_raise (e : Entity) (c : Changes) : e.Stays (e.raise c) :=
  ⟨e.persists_raise c, rfl, rfl⟩

theorem stays_walkTo (e : Entity) (p : Point) : e.Stays (e.walkTo p) :=
  ⟨e.persists_walkTo p, rfl, rfl⟩

theorem stays_clearChanges (e : Entity) : e.Stays e.clearChanges :=
  ⟨e.persists_clearChanges, rfl, rfl⟩

end Entity

namespace Region

variable {g g' : Region}

/-- Marks an entity as new on the map. -/
def mark (g : Region) (id : EntityId) : Region := g.modify id fun e => e.raise { newOnMap := true }

theorem id_of_insert {e : Entity} {x : PublicId} (h : g.insert e = .ok (x, g')) :
    g'.id = g.id := by
  obtain ⟨-, -, -, publicIds, -, rfl⟩ := insert_eq_ok_iff.mp h
  rfl

theorem id_of_remove {id : EntityId} {e : Entity} (h : g.remove id = some (e, g')) :
    g'.id = g.id := by
  obtain ⟨e₀, -, -, rfl⟩ := remove_eq_some_iff.mp h
  rfl

/-- The look-ups after an entity has come and has been marked as new. -/
theorem find?_mark_insert {e : Entity} {x : PublicId} (h : g.insert e = .ok (x, g'))
    (k : EntityId) :
    (g'.mark e.id).find? k = if k = e.id then some (e.arrived x) else g.find? k := by
  rw [mark, find?_modify, find?_insert h]
  split <;> rfl

/-- Whoever is there after an entity has come is the newcomer or was there before. -/
theorem find?_mark_insert_cases {e e' : Entity} {x : PublicId} {k : EntityId}
    (h : g.insert e = .ok (x, g')) (hk : (g'.mark e.id).find? k = some e') :
    (k = e.id ∧ e' = e.arrived x) ∨ (k ≠ e.id ∧ g.find? k = some e') := by
  rw [find?_mark_insert h] at hk
  by_cases hid : k = e.id
  · rw [if_pos hid, Option.some.injEq] at hk
    exact .inl ⟨hid, hk.symm⟩
  · rw [if_neg hid] at hk
    exact .inr ⟨hid, hk⟩

/-! ### Being where one should be -/

theorem placed_empty (id : MapId) (terrain : Terrain) (fixtures : List Fixture)
    (random : RandomStream) : (empty id terrain fixtures random).Placed where
  id_eq h := by simp [empty, find?] at h
  map_eq h := by simp [empty, find?] at h
  inside h := by simp [empty, find?] at h

/-- Everybody is in its place after somebody has come who is at a standstill. -/
theorem Placed.insert {e : Entity} {x : PublicId} (hg : g.Placed) (h : g.insert e = .ok (x, g'))
    (hmap : e.map = g.id) (hrest : e.oldPosition = e.position) : g'.Placed := by
  have hfind := find?_insert h
  obtain ⟨-, -, hinside, publicIds, -, rfl⟩ := insert_eq_ok_iff.mp h
  refine ⟨fun {k e'} hk => ?_, fun {k e'} hk => ?_, fun {k e'} hk => ?_⟩ <;> rw [hfind] at hk <;>
    split at hk
  · rename_i hid
    cases hk
    exact hid.symm
  · exact hg.id_eq hk
  · cases hk
    exact hmap
  · exact hg.map_eq hk
  · cases hk
    exact ⟨hinside, by rw [hrest]; exact hinside⟩
  · exact hg.inside hk

theorem Placed.remove {id : EntityId} {e : Entity} (hg : g.Placed)
    (h : g.remove id = some (e, g')) : g'.Placed := by
  have hfind {k e'} (hk : g'.find? k = some e') : g.find? k = some e' := (find?_of_remove h hk).2
  obtain ⟨e₀, -, -, rfl⟩ := remove_eq_some_iff.mp h
  exact ⟨fun hk => hg.id_eq (hfind hk), fun hk => hg.map_eq (hfind hk),
    fun hk => hg.inside (hfind hk)⟩

/-- Everybody is where it should be as long as nobody changes its identity or its map, or leaves the
terrain. -/
theorem Placed.rewrite {R : Entity → Entity → Prop} (hg : g.Placed) (h : Rewrites R g g')
    (hR : ∀ e e', R e e' → e.Persists e')
    (hinside : ∀ e e', R e e' → g.terrain.contains e.position = true →
      g.terrain.contains e.oldPosition = true →
      g.terrain.contains e'.position = true ∧ g.terrain.contains e'.oldPosition = true) :
    g'.Placed := by
  refine ⟨fun {k e'} hk => ?_, fun {k e'} hk => ?_, fun {k e'} hk => ?_⟩ <;>
    obtain ⟨e, he, hRe⟩ := h.back hk
  · rw [(hR e e' hRe).id, hg.id_eq he]
  · rw [(hR e e' hRe).map, hg.map_eq he, h.id]
  · rw [h.terrain]
    exact hinside e e' hRe (hg.inside he).1 (hg.inside he).2

/-! ### Soundness -/

/-- All is well on a region. -/
structure Sound (g : Region) : Prop where
  placed : g.Placed
  indexed : g.Indexed
  numbered : g.Numbered

theorem sound_empty (id : MapId) (terrain : Terrain) (fixtures : List Fixture)
    (random : RandomStream) : (empty id terrain fixtures random).Sound :=
  ⟨placed_empty .., indexed_empty .., numbered_empty ..⟩

/-- Whoever concerns a viewer is on the map. -/
theorem Sound.find?_of_concerning (hg : g.Sound) {viewer e : Entity} {range : UInt16}
    (he : e ∈ g.beingsConcerning viewer range) : g.find? e.id = some e :=
  hg.placed.find?_of_mem (hg.indexed.mem_beingsConcerning_iff hg.placed |>.mp he).1

/-- Whoever concerns a viewer is a being. -/
theorem Sound.isBeing_of_concerning (hg : g.Sound) {viewer e : Entity} {range : UInt16}
    (he : e ∈ g.beingsConcerning viewer range) : e.isBeing = true := by
  have hconcerns := (hg.indexed.mem_beingsConcerning_iff hg.placed |>.mp he).2
  simp only [concerns, Bool.and_eq_true] at hconcerns
  exact hconcerns.1

/-- Whoever concerns a viewer has a public id. -/
theorem Sound.exists_publicId_of_concerning (hg : g.Sound) {viewer e : Entity} {range : UInt16}
    (he : e ∈ g.beingsConcerning viewer range) : ∃ x, e.publicId = some x := by
  obtain ⟨x, hx, -⟩ := hg.numbered.taken (hg.find?_of_concerning he)
  exact ⟨x, hx⟩

/-- All beings that concern a viewer have different public ids. -/
theorem Sound.distinct_concerning (hg : g.Sound) (viewer : Entity) (range : UInt16) :
    (g.beingsConcerning viewer range).Pairwise fun e e' => e.publicId ≠ e'.publicId := by
  refine ((hg.placed.pairwise_candidates ..).filter _).imp_of_mem fun {e e'} he he' hlt heq => ?_
  have hid := hg.numbered.distinct (hg.find?_of_concerning he) (hg.find?_of_concerning he') heq
  rw [hid] at hlt
  exact absurd hlt (by simp)

theorem Sound.insert {e : Entity} {x : PublicId} (hg : g.Sound) (h : g.insert e = .ok (x, g'))
    (hmap : e.map = g.id) (hrest : e.oldPosition = e.position) : g'.Sound :=
  ⟨hg.placed.insert h hmap hrest, hg.indexed.insert h hrest, hg.numbered.insert h⟩

theorem Sound.remove {id : EntityId} {e : Entity} (hg : g.Sound) (h : g.remove id = some (e, g')) :
    g'.Sound :=
  ⟨hg.placed.remove h, hg.indexed.remove h, hg.numbered.remove h⟩

/-- A region stays sound if things happen to entities that stay where they are. -/
theorem Sound.rewrite {R : Entity → Entity → Prop} (hg : g.Sound) (h : Rewrites R g g')
    (hindex : g'.index = g.index) (hR : ∀ e e', R e e' → e.Stays e') : g'.Sound where
  placed := hg.placed.rewrite h (fun e e' hRe => (hR e e' hRe).toPersists)
    fun e e' hRe hpos hold => by
      rw [(hR e e' hRe).position, (hR e e' hRe).oldPosition]
      exact ⟨hpos, hold⟩
  indexed := hg.indexed.rewrite h hindex fun e e' hRe =>
    ⟨(hR e e' hRe).position, (hR e e' hRe).oldPosition⟩
  numbered := hg.numbered.rewrite h fun e e' hRe => (hR e e' hRe).publicId

/-- All is well on a map when something happens to an entity that stays where it is. -/
theorem Sound.modify (hg : g.Sound) (id : EntityId) {f : Entity → Entity}
    (hf : ∀ e : Entity, e.Stays (f e)) : (g.modify id f).Sound := by
  refine hg.rewrite (rewrites_modify g id f) rfl ?_
  rintro e e' (rfl | rfl)
  · exact .refl e'
  · exact hf e

theorem Sound.mark (hg : g.Sound) (id : EntityId) : (g.mark id).Sound :=
  hg.modify id fun e => e.stays_raise _

theorem Sound.clearChanges (hg : g.Sound) : g.clearChanges.Sound := by
  refine hg.rewrite (rewrites_clearChanges g) rfl ?_
  rintro e e' rfl
  exact e.stays_clearChanges

/-- Neither the random stream nor what is built into the map matters. -/
theorem Sound.congr (hg : g.Sound) (random : RandomStream) (fixtures : List Fixture) :
    { g with random, fixtures : Region }.Sound := by
  refine hg.rewrite (R := fun e e' => e' = e) ?_ rfl ?_
  · exact rewrites_of_find? rfl rfl rfl fun k =>
      ⟨fun e => e, fun e => rfl, (Option.map_id' ..).symm⟩
  · rintro e e' rfl
    exact .refl e'

/-- All is well on a map after the passes. -/
theorem Sound.advance (hg : g.Sound) : g.advance.Sound where
  placed := by
    refine hg.placed.rewrite (rewrites_advance g) ?_ ?_
    · rintro e e' ⟨r, rfl⟩
      exact e.persists_live g.terrain r
    · rintro e e' ⟨r, rfl⟩ hpos -
      rw [Entity.oldPosition_live]
      exact ⟨Entity.contains_position_live hpos, hpos⟩
  indexed := hg.indexed.advance
  numbered := by
    refine hg.numbered.rewrite (rewrites_advance g) ?_
    rintro e e' ⟨r, rfl⟩
    exact (e.persists_live g.terrain r).publicId

end Region

end TileWorld
