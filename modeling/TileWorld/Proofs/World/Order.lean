import TileWorld.Proofs.World.Refusal
import TileWorld.Proofs.World.Round

/-!
# Worlds in order

Whoever is listed on a map is there, and on every map all is well (`World.Orderly`). Unlike the
soundness of a world this outlives every change even when identities come round, since it does not
say that whoever is on a map is listed there.

For each kind of change it is then known who is found where afterwards (`finds_remove_iff`,
`finds_welcome_iff`, `finds_modify_iff`), and who is on a map when its fixtures have worked
(`World.find?_arranged_cases`).
-/

namespace TileWorld

namespace World

variable {t : Terms} {w w' : World} {m map : MapId} {k id : EntityId} {e o : Entity}
  {x : PublicId} {g g' : Region}

/-! ### Who is where -/

theorem finds_iff (hg : w.region? m = some g) : w.Finds m k o ↔ g.find? k = some o := by
  simp [Finds, hg]

theorem finds_opened_iff (hmap : w.region? map = none) (plan : MapPlan) :
    (w.opened map plan).Finds m k o ↔ w.Finds m k o := by
  rw [finds_update_iff (g := w.regionOfPlan map plan) fun _ => Table.getElem?_insert ..]
  by_cases hm : m = map
  · simp [hm, Finds, hmap, regionOfPlan, Region.empty, Region.find?]
  · simp [hm]

theorem finds_activate_iff (h : w.activate map = .ok (g, w')) :
    w'.Finds m k o ↔ w.Finds m k o := by
  obtain ⟨-, rfl⟩ | ⟨hmap, plan, -, rfl, -⟩ := activate_eq_ok_iff.mp h
  · rfl
  · exact finds_opened_iff hmap plan

/-- Whoever leaves is not found any more on the map where it is listed. -/
theorem finds_remove_iff {cause : RemovalCause} (h : w.remove id cause = some (e, w')) :
    w'.Finds m k o ↔ w.Finds m k o ∧ ¬ (k = id ∧ w.mapOf id = some m) := by
  obtain ⟨map, g, leaving, g', hmap, hg, -, hrem, rfl⟩ := remove_eq_some_iff.mp h
  rw [finds_update_iff (w := w) (g := g') fun _ => Table.getElem?_insert .., hmap,
    Region.find?_remove hrem]
  by_cases hm : m = map
  · subst hm
    simp [finds_iff hg, and_comm]
  · simp [hm, Ne.symm hm]

/-- Whoever is found after somebody has come was there before or is the newcomer. -/
theorem finds_welcome_iff (h : w.Comes e x g g') : (w.welcome e g').Finds m k o ↔
    w.Finds m k o ∨ (m = e.map ∧ k = e.id ∧ o = e.arrived x) := by
  obtain ⟨-, hfree, -⟩ := Region.insert_eq_ok_iff.mp h.insert
  rw [finds_update_iff (w := w) (g := g'.mark e.id) fun _ => Table.getElem?_insert ..,
    Region.find?_mark_insert h.insert]
  by_cases hm : m = e.map
  · subst hm
    by_cases hk : k = e.id
    · simp [hk, finds_iff h.region, hfree, eq_comm]
    · simp [hk, finds_iff h.region]
  · simp [hm]

/-- When something happens to somebody on a map, everybody is found where it was. -/
theorem finds_modify_iff (hg : w.region? g.id = some g) (f : Entity → Entity) :
    (w.setRegion (g.modify id f)).Finds m k o ↔
      ∃ e, w.Finds m k e ∧ o = if m = g.id ∧ k = id then f e else e := by
  have hregion (m' : MapId) : (w.setRegion (g.modify id f)).region? m' =
      if m' = g.id then some (g.modify id f) else w.region? m' := Table.getElem?_insert ..
  rw [finds_update_iff hregion, Region.find?_modify]
  by_cases hm : m = g.id
  · subst hm
    by_cases hk : k = id <;> simp [hk, finds_iff hg, eq_comm]
  · simp [hm]

/-- Something that moves nobody and that happens to nobody: a map comes into use, an identity is given
out, something is put down for later, or something is said. -/
def Command.isIdle : Command → Bool
  | .activate _ | .allocate | .queueRemoval _ _ | .say _ _ | .announce _ _ _ => true
  | _ => false

/-- Idle commands leave everybody as it is. -/
theorem finds_execute_iff {c : Command} (hc : c.isIdle = true) :
    (w.execute c).Finds m k o ↔ w.Finds m k o := by
  cases c with
  | activate map =>
    rw [execute]
    rcases h : w.activate map with err | ⟨g, w'⟩
    · rfl
    · exact finds_activate_iff h
  | say id text =>
    rw [execute]
    rcases h : w.say id text with err | ⟨n, w'⟩
    · rfl
    · obtain ⟨speaker, message, ids, -, rfl⟩ := exists_of_say h
      rfl
  | announce map center text =>
    rw [execute]
    rcases h : w.announce map center text with err | ⟨n, w'⟩
    · rfl
    · obtain ⟨speaker, message, ids, -, rfl⟩ := exists_of_announce h
      rfl
  | allocate | queueRemoval => rfl
  | _ => cases hc

/-! ### Order -/

/-- Whoever is listed on a map is there, and on every map all is well. -/
structure Orderly (w : World) : Prop extends w.Housed where
  region : ∀ {map g}, w.region? map = some g → g.Sound

theorem orderly_empty (config : WorldConfig) (atlas : Atlas) : (empty config atlas).Orderly where
  toHoused := housed_empty config atlas
  region h := by simp [empty, region?] at h

/-- It is enough that all is well on the one map that has changed. -/
theorem Orderly.update (hw : w.Orderly) (hhoused : w'.Housed) (hg : g.Sound)
    (hregion : ∀ m, w'.region? m = if m = map then some g else w.region? m) : w'.Orderly where
  toHoused := hhoused
  region h := by
    rw [hregion] at h
    split at h
    · cases h
      exact hg
    · exact hw.region h

theorem Orderly.congr (hw : w.Orderly) (hregions : w'.regions = w.regions)
    (hlocations : w'.locations = w.locations) : w'.Orderly where
  toHoused := hw.toHoused.congr hregions hlocations
  region h := hw.region (by rwa [region?, hregions] at h)

theorem Orderly.remove (hw : w.Orderly) {cause : RemovalCause}
    (h : w.remove id cause = some (e, w')) : w'.Orderly := by
  have hhoused := hw.toHoused.remove h
  obtain ⟨map, g, leaving, g', -, hg, -, hrem, rfl⟩ := remove_eq_some_iff.mp h
  exact hw.update hhoused ((hw.region hg).remove hrem) fun _ => Table.getElem?_insert ..

theorem Orderly.welcome (hw : w.Orderly) (h : w.Comes e x g g') (hrest : e.AtRest) :
    (w.welcome e g').Orderly := by
  have hmap : e.map = g.id := (hw.id_eq h.region).symm
  have hg' : (g'.mark e.id).Sound :=
    ((hw.region h.region).insert h.insert hmap hrest.oldPosition).mark e.id
  exact hw.update (hw.toHoused.welcome h) hg' fun _ => Table.getElem?_insert ..

theorem Orderly.act (hw : w.Orderly) (hg : w.region? map = some g) (id : EntityId)
    {f : Entity → Entity} (hf : ∀ e : Entity, e.Stays (f e)) :
    (w.setRegion (g.modify id f)).Orderly :=
  hw.update (hw.toHoused.act hg id f) ((hw.region hg).modify id hf) fun _ =>
    Table.getElem?_insert ..

end World

/-! ### The turn of a map -/

namespace Bookkeeping

/-- All stays well on a map while its fixtures work. -/
theorem kept_region_sound : Kept fun b => b.region.Sound where
  draws b random hb := hb.congr random b.region.fixtures
  wastes _ hb := hb
  sends _ _ _ _ _ hb := hb
  spawns _ _ _ _ _ hb hins := (hb.insert hins rfl rfl).mark _

/-- Whoever was on the map is there, and everybody there has been there and has lived through the
passes, or it is a monster that is new on the map. -/
structure Peopled (g : Region) (b : Bookkeeping) : Prop where
  /-- Nobody has gone. -/
  remain : ∀ k, b.region.find? k = none → g.find? k = none
  /-- Nobody has come but new monsters. -/
  cases : ∀ k o, b.region.find? k = some o → (∃ e r, g.find? k = some e ∧ o = e.live g.terrain r) ∨
    (g.find? k = none ∧ o.isPlayer = false ∧ o.changes = { newOnMap := true })

end Bookkeeping

namespace World

variable {t : Terms} {w w' : World} {map : MapId} {k : EntityId} {e o : Entity} {g : Region}

/-- When the fixtures of a map have worked, all is still well on it. -/
theorem sound_arranged (hg : g.Sound) (w : World) : (w.arranged g).Sound :=
  (Bookkeeping.kept_region_sound.runAll (b := w.books g) hg.advance g.fixtures).congr _ _

theorem peopled_worked (w : World) (g : Region) : (w.worked g).Peopled g := by
  have hadvance := Region.rewrites_advance g
  have hgrows := w.outgrows_worked g
  refine ⟨fun k hk => Option.eq_none_iff_forall_ne_some.mpr fun e he => ?_, fun k o hk => ?_⟩
  · obtain ⟨e', he', -⟩ := hadvance.forth he
    rw [hgrows.stays k e' he'] at hk
    cases hk
  · obtain hk | ⟨hnone, hplayer, hchanges, -⟩ := hgrows.find?_cases hk
    · obtain ⟨e, he, r, rfl⟩ := hadvance.back hk
      exact .inl ⟨e, r, he, rfl⟩
    · refine .inr ⟨Option.eq_none_iff_forall_ne_some.mpr fun e he => ?_, hplayer, hchanges⟩
      obtain ⟨e', he', -⟩ := hadvance.forth he
      exact absurd (hnone.symm.trans he') (by simp)

/-- Whoever is on a map when its fixtures have worked has been there and has lived through the passes,
or it is a monster that is new on the map. -/
theorem find?_arranged_cases (h : (w.arranged g).find? k = some o) :
    (∃ e r, g.find? k = some e ∧ o = e.live g.terrain r) ∨
      (g.find? k = none ∧ o.isPlayer = false ∧ o.changes = { newOnMap := true }) :=
  (w.peopled_worked g).cases k o h

/-- Whoever was on the map is there when its fixtures have worked. -/
theorem find?_arranged (w : World) (he : g.find? k = some e) :
    ∃ r, (w.arranged g).find? k = some (e.live g.terrain r) := by
  rcases ho : (w.arranged g).find? k with _ | o
  · rw [(w.peopled_worked g).remain k ho] at he
    cases he
  · obtain ⟨e', r, he', rfl⟩ | ⟨hnone, -⟩ := find?_arranged_cases ho
    · rw [he'] at he
      cases he
      exact ⟨r, rfl⟩
    · rw [hnone] at he
      cases he

/-- A world stays orderly when a map has its turn. -/
theorem Orderly.turn (hw : w.Orderly) (hg : w.region? map = some g) (report : TickReport) :
    (w.passRegion g report).2.Orderly :=
  hw.update (hw.toHoused.turn hg report) (sound_arranged (hw.region hg) w).clearChanges fun _ =>
    Table.getElem?_insert ..

/-! ### Every change -/

/-- Every kind of change leaves a world in order. -/
theorem Orderly.alters (hw : w.Orderly) (h : Alters t w w') : w'.Orderly := by
  have hhoused := hw.toHoused.alters h
  cases h with
  | opens =>
    exact hw.update hhoused (Region.sound_empty ..) fun _ => Table.getElem?_insert ..
  | comes h hrest => exact hw.welcome h hrest
  | leaves h => exact hw.remove h
  | jumps h h' => exact (hw.remove h).welcome h' (Entity.atRest_place ..)
  | @falls w₁ id e h =>
    rcases e.isPlayer
    · exact hw.remove h
    · exact (hw.remove h).congr rfl rfl
  | walks hg id p => exact hw.act hg id fun e => e.stays_walkTo p
  | attacks hg id => exact hw.act hg id fun e => e.stays_raise _
  | turns hg report => exact hw.turn hg report
  | issues | speaks | notes => exact hw.congr rfl rfl

/-- A world stays orderly whatever happens. -/
theorem Orderly.develops (hw : w.Orderly) (h : Develops t w w') : w'.Orderly :=
  h.keeps (P := Orderly) (fun h hv => hv.alters h) hw

/-! ### Going elsewhere -/

/-- A point lies on a map that is in use or can be taken into use. -/
def HasPlace (w : World) (map : MapId) (p : Point) : Prop :=
  ∃ g w', w.activate map = .ok (g, w') ∧ g.terrain.contains p = true

/-- In an orderly world the one who leaves is the one who was asked to. -/
theorem Orderly.id_of_remove (hw : w.Orderly) {id : EntityId} {e : Entity} {cause : RemovalCause}
    (h : w.remove id cause = some (e, w')) : e.id = id := by
  obtain ⟨map, g, leaving, g', -, hg, -, hrem, -⟩ := remove_eq_some_iff.mp h
  obtain ⟨e₀, he₀, rfl, -⟩ := Region.remove_eq_some_iff.mp hrem
  have hid : e₀.id = id := (hw.region hg).placed.id_eq he₀
  exact hid

theorem snd_applyOne_warp (w : World) (id : EntityId) (map : MapId) (p : Point) :
    (w.applyOne (.warp id map p)).2 = (w.warp id map p).2 := by
  rw [applyOne]
  rcases w.warp id map p with ⟨_ | _, _⟩ <;> rfl

instance (w : World) (map : MapId) (p : Point) : Decidable (w.HasPlace map p) :=
  decidable_of_iff ((w.activate map).toOption.any fun r => r.1.terrain.contains p) <| by
    rw [HasPlace]
    rcases w.activate map with err | ⟨g, w'⟩ <;> simp [Except.toOption]

/-- A warp comes to nothing if the entity is nowhere or its target does not exist. If not, the entity
leaves the place where it is listed, and it is lost or comes to its target. -/
theorem Housed.warp_cases (hw : w.Housed) (id : EntityId) (map : MapId) (p : Point) :
    ((w.mapOf id = none ∨ ¬ w.HasPlace map p) ∧ ∃ err w', w.warp id map p = (.error err, w') ∧
      (w' = w ∨ ∃ g, w.activate map = .ok (g, w'))) ∨
    (w.mapOf id ≠ none ∧ w.HasPlace map p ∧ ∃ g w₁ e w₂, w.activate map = .ok (g, w₁) ∧
      w₁.remove id .warp = some (e, w₂) ∧
        ((∃ err, w.warp id map p =
            (.error err, if e.isPlayer then { w₂ with lost := w₂.lost ++ [id] } else w₂)) ∨
          ∃ x g g', w₂.Comes (e.place map p) x g g' ∧
            w.warp id map p = (.ok x, w₂.welcome (e.place map p) g'))) := by
  rw [warp]
  by_cases hin : w.locations.contains id = true
  · rcases hact : w.activate map with err | ⟨g, w₁⟩
    · refine .inl ⟨.inr ?_, err, w, by simp [hin], .inl rfl⟩
      rintro ⟨g, w₁, hok, -⟩
      rw [hact] at hok
      cases hok
    by_cases hp : g.terrain.contains p = true
    · obtain ⟨e, w₂, hrem⟩ :=
        (hw.activate hact).exists_remove (by rwa [locations_activate hact]) .warp
      refine .inr ⟨contains_locations.mp hin, ⟨g, w₁, hact, hp⟩, g, w₁, e, w₂, rfl, hrem, ?_⟩
      simp only [hin, hp, hrem, Bool.not_true, Bool.false_eq_true, if_false]
      obtain ⟨err, hadd⟩ | ⟨-, g₂, w₃, hact₂, ⟨err, hadd⟩ | ⟨x, g', hcomes, hadd⟩⟩ :=
        w₂.add_cases (e.place map p)
      · simp only [hadd]
        exact .inl ⟨err, rfl⟩
      all_goals
        -- the target was in use before the entity left
        obtain rfl : w₃ = w₂ := eq_of_activate hact₂ <| by
          rw [isSome_region?_remove hrem]
          exact Option.isSome_of_eq_some (region?_of_activate hact)
        simp only [hadd]
      · exact .inl ⟨err, rfl⟩
      · exact .inr ⟨x, g₂, g', hcomes, rfl⟩
    · refine .inl ⟨.inr ?_, .invalidDestination id p, w₁, by simp [hin, hp], .inr ⟨g, rfl⟩⟩
      rintro ⟨g', w', hok, hp'⟩
      rw [hact] at hok
      cases hok
      exact hp hp'
  · have hnone : w.mapOf id = none := by
      by_contra hne
      exact hin (contains_locations.mpr hne)
    exact .inl ⟨.inl hnone, .unknownEntity id, w, by simp [hin], .inl rfl⟩

/-- A warp leaves everybody where it was if the entity is nowhere or its target does not exist. If
not, the entity has left the place where it was listed, and it is lost or is found at its target. -/
theorem Orderly.finds_warp_cases (hw : w.Orderly) (id : EntityId) (map : MapId) (p : Point) :
    ((w.mapOf id = none ∨ ¬ w.HasPlace map p) ∧ (∃ err, (w.warp id map p).1 = .error err) ∧
      ∀ m k o, (w.warp id map p).2.Finds m k o ↔ w.Finds m k o) ∨
    (w.mapOf id ≠ none ∧ w.HasPlace map p ∧
      ((∃ err, (w.warp id map p).1 = .error err) ∧ (∀ m k o, (w.warp id map p).2.Finds m k o ↔
          w.Finds m k o ∧ ¬ (k = id ∧ w.mapOf id = some m)) ∨
        ∃ (e : Entity) (x : PublicId), (w.warp id map p).1 = .ok x ∧ ∀ m k o,
          (w.warp id map p).2.Finds m k o ↔ (w.Finds m k o ∧ ¬ (k = id ∧ w.mapOf id = some m)) ∨
            (m = map ∧ k = id ∧ o = (e.place map p).arrived x))) := by
  obtain ⟨hgoes, err, w', hwarp, hw'⟩ | ⟨hid, hplace, g, w₁, e, w₂, hact, hrem, hends⟩ :=
    hw.toHoused.warp_cases id map p
  · refine .inl ⟨hgoes, ⟨err, by rw [hwarp]⟩, fun m k o => ?_⟩
    rw [hwarp]
    obtain rfl | ⟨g, hact⟩ := hw'
    · rfl
    · exact finds_activate_iff hact
  · -- the entity is listed where it was before the target came into use
    have hw₁ : w₁.Orderly := hw.develops (develops_activate (t := {}) hact)
    have hmapOf : w₁.mapOf id = w.mapOf id := by rw [mapOf, locations_activate hact, mapOf]
    have hleft (m : MapId) (k : EntityId) (o : Entity) :
        w₂.Finds m k o ↔ w.Finds m k o ∧ ¬ (k = id ∧ w.mapOf id = some m) := by
      rw [finds_remove_iff hrem, finds_activate_iff hact, hmapOf]
    refine .inr ⟨hid, hplace, ?_⟩
    obtain ⟨err, hwarp⟩ | ⟨x, g₂, g', hcomes, hwarp⟩ := hends <;> rw [hwarp]
    · refine .inl ⟨⟨err, rfl⟩, fun m k o => ?_⟩
      rw [← hleft]
      rcases e.isPlayer <;> rfl
    · refine .inr ⟨e, x, rfl, fun m k o => ?_⟩
      rw [finds_welcome_iff hcomes, hleft, ← hw₁.id_of_remove hrem]
      rfl

end World

end TileWorld
