import TileWorld.Proofs.World.Players
import TileWorld.Proofs.World.Refusal
import TileWorld.Proofs.World.Round

/-!
# What is left alone

Who comes, leaves, walks, attacks or speaks touches nobody else. This is said of a change of the
world by saying to which maps and to whom it is confined (`World.ConfinedTo`): all other maps are as
they were, everybody else is where it was and as it was, nothing that is built into a map has done any
work, and no random stream has moved. Who comes and has to leave again at once touches nobody at all
(`World.Comes.exists_remove`).
-/

namespace TileWorld

namespace Region

/-- The map is the same, with what is built into it and with its random stream, whoever is on it. -/
structure SameGround (g g' : Region) : Prop where
  id : g'.id = g.id
  terrain : g'.terrain = g.terrain
  fixtures : g'.fixtures = g.fixtures
  random : g'.random = g.random

variable {g g' g'' : Region}

theorem SameGround.refl (g : Region) : g.SameGround g := ⟨rfl, rfl, rfl, rfl⟩

theorem SameGround.trans (h : g.SameGround g') (h' : g'.SameGround g'') : g.SameGround g'' :=
  ⟨h'.id.trans h.id, h'.terrain.trans h.terrain, h'.fixtures.trans h.fixtures,
    h'.random.trans h.random⟩

theorem sameGround_modify (g : Region) (id : EntityId) (f : Entity → Entity) :
    g.SameGround (g.modify id f) := ⟨rfl, rfl, rfl, rfl⟩

/-- A map on which somebody comes keeps its ground. -/
theorem sameGround_mark_insert {e : Entity} {x : PublicId} (h : g.insert e = .ok (x, g')) :
    g.SameGround (g'.mark e.id) := by
  obtain ⟨-, -, -, ids, -, rfl⟩ := insert_eq_ok_iff.mp h
  exact ⟨rfl, rfl, rfl, rfl⟩

/-- A map that somebody leaves keeps its ground. -/
theorem sameGround_remove {id : EntityId} {e : Entity} (h : g.remove id = some (e, g')) :
    g.SameGround g' := by
  obtain ⟨e₀, -, -, rfl⟩ := remove_eq_some_iff.mp h
  exact ⟨rfl, rfl, rfl, rfl⟩

end Region

namespace World

/-- What does not belong to any map is the same, but for what has been said and given out. -/
structure SameRest (w w' : World) : Prop where
  config : w'.config = w.config
  atlas : w'.atlas = w.atlas
  ticks : w'.ticks = w.ticks
  deferred : w'.deferred = w.deferred
  lost : w'.lost = w.lost

/-- What has happened on the maps in `M` may have changed those in `P` where they are, and may have
brought them there or taken them away, and it may have taken such a map into use. Otherwise it is
confined to what was said and given out. -/
structure ConfinedTo (M : MapId → Prop) (P : MapId → EntityId → Prop) (w w' : World) : Prop where
  rest : w.SameRest w'
  /-- All other maps are just as they were, in use or not. -/
  elsewhere : ∀ m, ¬ M m → w'.region? m = w.region? m
  /-- Everybody else is found where it was found before, and nowhere else. -/
  finds : ∀ m k o, ¬ P m k → (w'.Finds m k o ↔ w.Finds m k o)
  /-- Everybody else is listed where it was listed before. -/
  mapOf : ∀ k, (∀ m, ¬ P m k) → w'.mapOf k = w.mapOf k
  /-- Maps stay in use, and nothing on them has done any work. -/
  ground : ∀ m g, w.region? m = some g → ∃ g', w'.region? m = some g' ∧ g.SameGround g'
  /-- On maps that have come into use nothing has done any work yet. -/
  opened : ∀ m g', w.region? m = none → w'.region? m = some g' →
    ∃ plan, w.atlas.plan m = some plan ∧ (w.regionOfPlan m plan).SameGround g'

variable {M N : MapId → Prop} {P Q : MapId → EntityId → Prop} {w w' w'' : World} {map : MapId}
  {id : EntityId} {e : Entity} {x : PublicId} {g g' : Region}

theorem SameRest.refl (w : World) : w.SameRest w := ⟨rfl, rfl, rfl, rfl, rfl⟩

theorem SameRest.trans (h : w.SameRest w') (h' : w'.SameRest w'') : w.SameRest w'' :=
  ⟨h'.config.trans h.config, h'.atlas.trans h.atlas, h'.ticks.trans h.ticks,
    h'.deferred.trans h.deferred, h'.lost.trans h.lost⟩

/-- Taking a map into use touches nothing else. -/
theorem sameRest_activate (h : w.activate map = .ok (g, w')) : w.SameRest w' := by
  obtain ⟨-, rfl⟩ | ⟨-, plan, -, rfl, -⟩ := activate_eq_ok_iff.mp h <;> exact ⟨rfl, rfl, rfl, rfl, rfl⟩

theorem sameRest_remove {cause : RemovalCause} (h : w.remove id cause = some (e, w')) :
    w.SameRest w' := by
  obtain ⟨map, g, leaving, g', -, -, -, -, rfl⟩ := remove_eq_some_iff.mp h
  exact ⟨rfl, rfl, rfl, rfl, rfl⟩

/-- Nothing has happened to the maps and to the list of where everybody is. -/
theorem confinedTo_of_eq (M : MapId → Prop) (P : MapId → EntityId → Prop) (hrest : w.SameRest w')
    (hregions : w'.regions = w.regions) (hlocations : w'.locations = w.locations) :
    ConfinedTo M P w w' where
  rest := hrest
  elsewhere m _ := by rw [region?, region?, hregions]
  finds m k o _ := by rw [Finds, Finds, region?, region?, hregions]
  mapOf k _ := by rw [World.mapOf, World.mapOf, hlocations]
  ground m g hg := ⟨g, by rwa [region?, hregions], .refl g⟩
  opened m g' hnone hg' := by
    rw [region?, hregions] at hg'
    rw [region?, hg'] at hnone
    cases hnone

theorem ConfinedTo.refl (M : MapId → Prop) (P : MapId → EntityId → Prop) (w : World) :
    ConfinedTo M P w w :=
  confinedTo_of_eq M P (.refl w) rfl rfl

/-- Two changes that keep to the same maps and entities keep to them together. -/
theorem ConfinedTo.trans (h : ConfinedTo M P w w') (h' : ConfinedTo M P w' w'') :
    ConfinedTo M P w w'' where
  rest := h.rest.trans h'.rest
  elsewhere m hM := (h'.elsewhere m hM).trans (h.elsewhere m hM)
  finds m k o hP := (h'.finds m k o hP).trans (h.finds m k o hP)
  mapOf k hP := (h'.mapOf k hP).trans (h.mapOf k hP)
  ground m g hg := by
    obtain ⟨g', hg', hsame⟩ := h.ground m g hg
    obtain ⟨g'', hg'', hsame'⟩ := h'.ground m g' hg'
    exact ⟨g'', hg'', hsame.trans hsame'⟩
  opened m g'' hnone hg'' := by
    rcases hg' : w'.region? m with _ | g'
    · obtain ⟨plan, hplan, hsame⟩ := h'.opened m g'' hg' hg''
      rw [h.rest.atlas] at hplan
      rw [regionOfPlan, h.rest.config] at hsame
      exact ⟨plan, hplan, hsame⟩
    · obtain ⟨plan, hplan, hsame⟩ := h.opened m g' hnone hg'
      obtain ⟨g₀, hg₀, hsame'⟩ := h'.ground m g' hg'
      obtain rfl : g'' = g₀ := Option.some.inj (hg''.symm.trans hg₀)
      exact ⟨plan, hplan, hsame.trans hsame'⟩

theorem ConfinedTo.mono (h : ConfinedTo M P w w') (hMN : ∀ m, M m → N m)
    (hPQ : ∀ m k, P m k → Q m k) : ConfinedTo N Q w w' where
  rest := h.rest
  elsewhere m hN := h.elsewhere m fun hM => hN (hMN m hM)
  finds m k o hQ := h.finds m k o fun hP => hQ (hPQ m k hP)
  mapOf k hQ := h.mapOf k fun m hP => hQ m (hPQ m k hP)
  ground := h.ground
  opened := h.opened

/-- What is done on one map is done on no other one. -/
theorem region?_eq_of_update {r : Option Region}
    (hregion : ∀ m, w'.region? m = if m = map then r else w.region? m) (hM : M map) {m : MapId}
    (hm : ¬ M m) : w'.region? m = w.region? m := by
  rw [hregion, if_neg]
  rintro rfl
  exact hm hM

/-- What is done on one map in use, to those in `P`. -/
theorem confinedTo_of_update (hrest : w.SameRest w') (hM : M map) (hg : w.region? map = some g)
    (hsame : g.SameGround g')
    (hregion : ∀ m, w'.region? m = if m = map then some g' else w.region? m)
    (hfind : ∀ k, ¬ P map k → g'.find? k = g.find? k)
    (hmapOf : ∀ k, (∀ m, ¬ P m k) → w'.mapOf k = w.mapOf k) : ConfinedTo M P w w' where
  rest := hrest
  elsewhere _ := region?_eq_of_update hregion hM
  finds m k o hP := by
    rw [Finds, Finds, hregion]
    by_cases hm : m = map
    · subst hm
      simp only [if_true, hg, Option.some.injEq, exists_eq_left', hfind k hP]
    · rw [if_neg hm]
  mapOf := hmapOf
  ground m g₀ hg₀ := by
    rw [hregion]
    split
    · rename_i hm
      rw [hm, hg] at hg₀
      cases hg₀
      exact ⟨g', rfl, hsame⟩
    · exact ⟨g₀, hg₀, .refl g₀⟩
  opened m g₀ hnone hg₀ := by
    rw [hregion] at hg₀
    split at hg₀
    · rename_i hm
      rw [hm, hg] at hnone
      cases hnone
    · rw [hnone] at hg₀
      cases hg₀

theorem confinedTo_opened (hmap : w.region? map = none) {plan : MapPlan}
    (hplan : w.atlas.plan map = some plan) (hM : M map) (P : MapId → EntityId → Prop) :
    ConfinedTo M P w (w.opened map plan) := by
  have hregion (m : MapId) : (w.opened map plan).region? m =
      if m = map then some (w.regionOfPlan map plan) else w.region? m := Table.getElem?_insert ..
  have hempty (k : EntityId) : (w.regionOfPlan map plan).find? k = none := by
    simp [regionOfPlan, Region.find?, Region.empty]
  refine ⟨⟨rfl, rfl, rfl, rfl, rfl⟩, fun _ => region?_eq_of_update hregion hM, fun m k o _ => ?_,
    fun k _ => rfl, fun m g hg => ?_, fun m g' hnone hg' => ?_⟩
  · rw [Finds, Finds, hregion]
    by_cases hm : m = map
    · subst hm
      simp [hmap, hempty]
    · rw [if_neg hm]
  · have hne : m ≠ map := by
      rintro rfl
      rw [hmap] at hg
      cases hg
    exact ⟨g, (hregion m).trans ((if_neg hne).trans hg), .refl g⟩
  · rw [hregion] at hg'
    split at hg'
    · rename_i hm
      cases hg'
      subst hm
      exact ⟨plan, hplan, .refl _⟩
    · rw [hnone] at hg'
      cases hg'

/-- Whether a map is in use or comes into use, this keeps to the map. -/
theorem confinedTo_activate (hM : M map) (P : MapId → EntityId → Prop)
    (h : w.activate map = .ok (g, w')) : ConfinedTo M P w w' := by
  obtain ⟨-, rfl⟩ | ⟨hmap, plan, hplan, rfl, -⟩ := activate_eq_ok_iff.mp h
  · exact .refl M P w'
  · exact confinedTo_opened hmap hplan hM P

/-- Nothing is said when a map comes into use. -/
theorem outbox_activate (h : w.activate map = .ok (g, w')) : w'.outbox = w.outbox := by
  obtain ⟨-, rfl⟩ | ⟨-, plan, -, rfl, -⟩ := activate_eq_ok_iff.mp h <;> rfl

/-- Whoever comes onto a map is the only one who is touched. -/
theorem confinedTo_welcome (h : w.Comes e x g g') (hM : M e.map) (hP : P e.map e.id) :
    ConfinedTo M P w (w.welcome e g') := by
  refine confinedTo_of_update ⟨rfl, rfl, rfl, rfl, rfl⟩ hM h.region
    (Region.sameGround_mark_insert h.insert) (fun m => Table.getElem?_insert ..) ?_ ?_
  · intro k hk
    have hne : k ≠ e.id := by
      rintro rfl
      exact hk hP
    rw [Region.find?_mark_insert h.insert, if_neg hne]
  · intro k hk
    have hne : k ≠ e.id := by
      rintro rfl
      exact hk e.map hP
    exact (Table.getElem?_insert ..).trans (if_neg hne)

/-- Whoever leaves its map is the only one who is touched. -/
theorem confinedTo_remove {cause : RemovalCause} (h : w.remove id cause = some (e, w'))
    (hM : ∀ m, w.mapOf id = some m → M m) (hP : ∀ m, w.mapOf id = some m → P m id) :
    ConfinedTo M P w w' := by
  have hrest := sameRest_remove h
  obtain ⟨map, g, leaving, g', hmap, hg, -, hrem, rfl⟩ := remove_eq_some_iff.mp h
  refine confinedTo_of_update hrest (hM map hmap) hg (Region.sameGround_remove hrem)
    (fun m => Table.getElem?_insert ..) ?_ ?_
  · intro k hk
    have hne : k ≠ id := by
      rintro rfl
      exact hk (hP map hmap)
    rw [Region.find?_remove hrem, if_neg hne]
  · intro k hk
    have hne : k ≠ id := by
      rintro rfl
      exact hk map (hP map hmap)
    exact (Table.getElem?_erase ..).trans (if_neg hne)

/-- What becomes of somebody on its map. -/
theorem confinedTo_modify (hg : w.region? map = some g) (hid : g.id = map) (hM : M map)
    (hP : P map id) (f : Entity → Entity) : ConfinedTo M P w (w.setRegion (g.modify id f)) := by
  refine confinedTo_of_update ⟨rfl, rfl, rfl, rfl, rfl⟩ hM hg (g.sameGround_modify id f)
    (fun m => ?_) (fun k hk => ?_) fun k _ => rfl
  · rw [← hid]
    exact Table.getElem?_insert ..
  · have hne : k ≠ id := by
      rintro rfl
      exact hk hP
    rw [Region.find?_modify, if_neg hne]

/-! ### Coming and having to leave again -/

/-- Whoever has come can leave, and then nobody has been touched. -/
theorem Comes.exists_remove (h : w.Comes e x g g') (cause : RemovalCause) :
    ∃ gone w', (w.welcome e g').remove e.id cause = some (gone, w') ∧
      ConfinedTo (· = e.map) (fun _ _ => False) w w' := by
  have hregion (m : MapId) :
      (w.welcome e g').region? m = if m = e.map then some (g'.mark e.id) else w.region? m :=
    Table.getElem?_insert ..
  have hlisted := w.mapOf_welcome e g'
  have hfind (k : EntityId) := Region.find?_mark_insert h.insert k
  obtain ⟨-, hfree, -⟩ := Region.insert_eq_ok_iff.mp h.insert
  rcases hrem : (w.welcome e g').remove e.id cause with _ | ⟨gone, w'⟩
  · have hentity := remove_eq_none_iff.mp hrem
    simp [entity?, regionOf, hlisted, hregion, hfind] at hentity
  · refine ⟨gone, w', rfl, ?_⟩
    have hthere (m : MapId) (hm : (w.welcome e g').mapOf e.id = some m) : m = e.map := by
      rw [hlisted, if_pos rfl] at hm
      exact (Option.some.inj hm).symm
    have hcame := confinedTo_welcome (M := (· = e.map)) (P := fun m k => m = e.map ∧ k = e.id) h rfl
      ⟨rfl, rfl⟩
    have hleft := confinedTo_remove (M := (· = e.map)) (P := fun m k => m = e.map ∧ k = e.id) hrem
      hthere fun m hm => ⟨hthere m hm, rfl⟩
    have hboth := hcame.trans hleft
    -- only for the one who has come and gone is there anything left to see
    refine ⟨hboth.rest, hboth.elsewhere, fun m k o _ => ?_, fun k _ => ?_, hboth.ground,
      hboth.opened⟩
    · by_cases hk : m = e.map ∧ k = e.id
      · obtain ⟨rfl, rfl⟩ := hk
        refine iff_of_false ?_ ?_
        · intro hfinds
          obtain ⟨m, g₁, leaving, g₂, hm, hg₁, -, hrem', rfl⟩ := remove_eq_some_iff.mp hrem
          rw [hlisted, if_pos rfl] at hm
          cases hm
          obtain ⟨-, ho⟩ | ⟨hne, -⟩ := (finds_update_iff fun _ => Table.getElem?_insert ..).mp hfinds
          · rw [Region.find?_remove hrem', if_pos rfl] at ho
            cases ho
          · exact hne rfl
        · rintro ⟨g₀, hg₀, ho⟩
          obtain rfl : g = g₀ := Option.some.inj (h.region.symm.trans hg₀)
          rw [hfree] at ho
          cases ho
      · exact hboth.finds m k o hk
    · by_cases hk : k = e.id
      · rw [hk, h.free, mapOf_of_remove hrem, if_pos rfl]
      · exact hboth.mapOf k fun m hm => hk hm.2

/-- A character comes into the world under the next identity, or nobody has been touched. Only the map
on which the character is to stand has to do with it. -/
theorem enter_confined (w : World) (name : String) :
    ∃ w₁, ConfinedTo (· = (w.characterOf name).map) (fun _ _ => False) w w₁ ∧
    w₁.outbox = w.outbox ∧ w₁.issued = w.issued + 1 ∧
    ((∃ err, w.enter name = (.error err, w₁)) ∨
      ∃ e x g g', w₁.Comes e x g g' ∧ e.map = (w.characterOf name).map ∧ e.AtRest ∧
        e.isPlayer = true ∧ e.id = .nth (w.issued + 1) ∧
          w.enter name = (.ok (e.id, x), w₁.welcome e g')) := by
  have hfirst : ConfinedTo (· = (w.characterOf name).map) (fun _ _ => False) w w.allocateId.2 :=
    confinedTo_of_eq _ _ ⟨rfl, rfl, rfl, rfl, rfl⟩ rfl rfl
  obtain ⟨w₁, rfl | ⟨g, hact⟩, hend⟩ := w.enter_steps name
  · exact ⟨_, hfirst, rfl, rfl, hend⟩
  · have hopens :=
      confinedTo_activate (M := (· = (w.characterOf name).map)) rfl (fun _ _ => False) hact
    exact ⟨w₁, hfirst.trans hopens, (outbox_activate hact :), (frame_activate hact).issued, hend⟩

/-! ### What is said -/

/-- What is said when an entity comes is said to it. -/
theorem recipient_of_mem_arrivals {d : Delivery} (h : d ∈ w.arrivals e) : d.recipient = e.id := by
  rw [arrivals] at h
  split at h
  · split at h
    · rw [List.mem_singleton.mp h]
    · cases h
  · cases h

/-- Whoever takes leave of an entity is told its public id. -/
theorem message_of_mem_farewells {d : Delivery} (h : d ∈ w.farewells g e) :
    ∃ x, e.publicId = some x ∧ d.message = leaveNotice x := by
  rw [farewells] at h
  split at h
  · obtain ⟨k, -, rfl⟩ := List.mem_map.mp h
    exact ⟨_, ‹_›, rfl⟩
  · cases h

/-- What is queued when somebody leaves is about nobody else. -/
theorem mem_outbox_of_remove {cause : RemovalCause} {d : Delivery}
    (h : w.remove id cause = some (e, w')) (hd : d ∈ w'.outbox) :
    d ∈ w.outbox ∨ ∃ m o x, w.mapOf id = some m ∧ w.Finds m id o ∧ o.publicId = some x ∧
      d.message = leaveNotice x := by
  obtain ⟨map, g, leaving, g', hmap, hg, hleaving, -, rfl⟩ := remove_eq_some_iff.mp h
  obtain hd | hd := List.mem_append.mp hd
  · exact .inl hd
  · obtain ⟨x, hx, hmessage⟩ := message_of_mem_farewells hd
    exact .inr ⟨map, leaving, x, hmap, ⟨g, hg, hleaving⟩, hx, hmessage⟩

end World

end TileWorld
