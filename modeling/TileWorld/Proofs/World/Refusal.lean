import TileWorld.Proofs.World.Representation

/-!
# What is refused

A world refuses what it cannot do, and whoever asked is told why. Some of the reasons are found
after the work has begun: a map has come into use, or an identity has been given out. This is all
that a refusal leaves behind (`World.intact_of_refuses`).

The one reason that could be found too late is that an entity which goes elsewhere is listed on a
map and yet is not there. In a world that can be reached nobody is (`World.Housed`), however the
entities that were added look, and whether or not identities have come round.
-/

namespace TileWorld

open Relation

namespace World

variable {t : Terms} {w w' : World}

/-! ### Whoever is listed on a map is there -/

/-- Every map goes by its own number, and whoever is listed on a map is there. -/
structure Housed (w : World) : Prop where
  id_eq : ∀ {map g}, w.region? map = some g → g.id = map
  here : ∀ {id map}, w.mapOf id = some map → ∃ g e, w.region? map = some g ∧ g.find? id = some e

theorem housed_empty (config : WorldConfig) (atlas : Atlas) : (empty config atlas).Housed where
  id_eq h := by simp [empty, region?] at h
  here h := by simp [empty, mapOf] at h

/-- Whoever is listed on a map in use is there. -/
theorem Housed.exists_find? (hw : w.Housed) {id : EntityId} {map : MapId} {g : Region}
    (hid : w.mapOf id = some map) (hg : w.region? map = some g) : ∃ e, g.find? id = some e := by
  obtain ⟨g₀, e, hg₀, he⟩ := hw.here hid
  obtain rfl : g = g₀ := Option.some.inj (hg.symm.trans hg₀)
  exact ⟨e, he⟩

/-- It is enough to see one map change, and the list of where everybody is with it. -/
theorem Housed.update (hw : w.Housed) {map : MapId} {g : Region} (hid : g.id = map)
    (hregion : ∀ m, w'.region? m = if m = map then some g else w.region? m)
    (hhere : ∀ id, w'.mapOf id = some map → ∃ e, g.find? id = some e)
    (hothers : ∀ id m, m ≠ map → w'.mapOf id = some m → w.mapOf id = some m) : w'.Housed where
  id_eq {m g'} hm := by
    rw [hregion] at hm
    split at hm
    · cases hm
      rename_i heq
      exact hid.trans heq.symm
    · exact hw.id_eq hm
  here {id m} hm := by
    rw [hregion]
    by_cases heq : m = map
    · obtain ⟨e, he⟩ := hhere id (heq ▸ hm)
      exact ⟨g, e, if_pos heq, he⟩
    · rw [if_neg heq]
      exact hw.here (hothers id m heq hm)

/-- Everybody is housed as before when those on a map change and nobody comes or goes. -/
theorem Housed.rewrite (hw : w.Housed) {map : MapId} {g g' : Region} (hg : w.region? map = some g)
    {S : Entity → Entity → Prop} (h : Region.Rewrites S g g')
    (hregion : ∀ m, w'.region? m = if m = map then some g' else w.region? m)
    (hmapOf : ∀ id, w'.mapOf id = w.mapOf id) : w'.Housed := by
  refine hw.update (h.id.trans (hw.id_eq hg)) hregion ?_ ?_
  · intro id hid
    rw [hmapOf] at hid
    obtain ⟨e, he⟩ := hw.exists_find? hid hg
    obtain ⟨e', he', -⟩ := h.forth he
    exact ⟨e', he'⟩
  · intro id m _ hm
    rwa [hmapOf] at hm

/-- Nothing is said here of where the newcomer was listed before. -/
theorem Housed.join (hw : w.Housed) {e : Entity} {x : PublicId} {map : MapId} {g g' : Region}
    (hg : w.region? map = some g) (hins : g.insert e = .ok (x, g'))
    (hregion : ∀ m, w'.region? m = if m = map then some (g'.mark e.id) else w.region? m)
    (hmapOf : ∀ id, w'.mapOf id = if id = e.id then some map else w.mapOf id) : w'.Housed := by
  have hid : (g'.mark e.id).id = map := (Region.id_of_insert hins).trans (hw.id_eq hg)
  refine hw.update hid hregion ?_ ?_
  · intro id hm
    rw [hmapOf] at hm
    rw [Region.find?_mark_insert hins]
    split
    · exact ⟨_, rfl⟩
    · rename_i hne
      rw [if_neg hne] at hm
      exact hw.exists_find? hm hg
  · intro id m hne hm
    rw [hmapOf] at hm
    split at hm
    · exact absurd (Option.some.inj hm).symm hne
    · exact hm

/-- Only the maps and the list of where everybody is matter. -/
theorem Housed.congr (hw : w.Housed) (hregions : w'.regions = w.regions)
    (hlocations : w'.locations = w.locations) : w'.Housed where
  id_eq h := hw.id_eq (by rwa [region?, hregions] at h)
  here := by
    simp only [mapOf, region?, hregions, hlocations]
    exact hw.here

theorem Housed.opened (hw : w.Housed) {map : MapId} (hmap : w.region? map = none) (plan : MapPlan) :
    (w.opened map plan).Housed := by
  have hid : (w.regionOfPlan map plan).id = map := rfl
  refine hw.update hid (fun _ => Table.getElem?_insert ..) ?_ fun id m _ hm => hm
  -- nobody was listed on the map before it came into use
  intro id hid
  obtain ⟨g, e, hg, -⟩ := hw.here hid
  rw [hmap] at hg
  cases hg

theorem Housed.welcome (hw : w.Housed) {e : Entity} {x : PublicId} {g g' : Region}
    (h : w.Comes e x g g') : (w.welcome e g').Housed :=
  hw.join h.region h.insert (fun _ => Table.getElem?_insert ..) fun _ => Table.getElem?_insert ..

theorem Housed.remove (hw : w.Housed) {id : EntityId} {cause : RemovalCause} {e : Entity}
    (h : w.remove id cause = some (e, w')) : w'.Housed := by
  obtain ⟨map, g, leaving, g', -, hg, -, hrem, rfl⟩ := remove_eq_some_iff.mp h
  have hmapOf (k : EntityId) : (w.locations.erase id)[k]? = if k = id then none else w.mapOf k :=
    Table.getElem?_erase ..
  refine hw.update ((Region.id_of_remove hrem).trans (hw.id_eq hg))
    (fun m => Table.getElem?_insert ..) (fun k hk => ?_) fun k m _ hk => ?_
  · change (w.locations.erase id)[k]? = _ at hk
    rw [hmapOf] at hk
    rw [Region.find?_remove hrem]
    split at hk
    · cases hk
    · rename_i hne
      rw [if_neg hne]
      exact hw.exists_find? hk hg
  · change (w.locations.erase id)[k]? = _ at hk
    rw [hmapOf] at hk
    split at hk
    · cases hk
    · exact hk

/-- What becomes of an entity that stays on its map leaves everybody housed. -/
theorem Housed.act (hw : w.Housed) {map : MapId} {g : Region} (hg : w.region? map = some g)
    (id : EntityId) (f : Entity → Entity) : (w.setRegion (g.modify id f)).Housed := by
  refine hw.rewrite hg (Region.rewrites_modify g id f) ?_ fun id => rfl
  intro m
  rw [← hw.id_eq hg]
  exact Table.getElem?_insert ..

end World

/-- Everybody stays housed while fixtures work. -/
theorem Bookkeeping.kept_housed (w : World) : Kept fun b => (b.apply w).Housed where
  draws b random hb := by
    refine hb.rewrite (b.region?_apply_self w) (S := fun e e' => e' = e) ?_
      (region?_enter _ rfl) fun id => rfl
    exact ⟨rfl, rfl, rfl, fun h => ⟨_, h, rfl⟩, fun h => ⟨_, h, rfl⟩⟩
  wastes b hb := hb.congr rfl rfl
  sends b ps map p _ hb := hb.congr rfl rfl
  spawns b sort p x g' hb hins := by
    have hid : g'.id = b.region.id := Region.id_of_insert hins
    exact hb.join (b.region?_apply_self w) hins (region?_enter _ hid)
      fun id => Table.getElem?_insert ..

namespace World

variable {t : Terms} {w w' : World}

/-- Everybody is housed after the turn of a map, monsters that have come up included. -/
theorem Housed.turn (hw : w.Housed) {map : MapId} {g : Region} (hg : w.region? map = some g)
    (report : TickReport) : (w.passRegion g report).2.Housed := by
  obtain ⟨fixtures, heq⟩ := w.passRegion_eq g report
  have hbooks : ((w.books g).apply w).Housed := by
    refine hw.rewrite hg (Region.rewrites_advance g) ?_ fun id => rfl
    intro m
    rw [← hw.id_eq hg]
    exact (w.books g).region?_apply w m
  have hworked : ((w.worked g).apply w).Housed :=
    (Bookkeeping.kept_housed w).runAll hbooks g.fixtures
  have hclear := Region.rewrites_clearChanges ((w.worked g).region.fitted fixtures)
  rw [heq]
  exact hworked.rewrite ((w.worked g).region?_apply_self w) ⟨hclear.id, hclear.terrain,
    hclear.publicIds, hclear.back, hclear.forth⟩ (Bookkeeping.region?_enter (w.worked g) rfl)
    fun id => rfl

/-- Every kind of change leaves everybody housed. -/
theorem Housed.alters (hw : w.Housed) (h : Alters t w w') : w'.Housed := by
  cases h with
  | opens hmap _ => exact hw.opened hmap _
  | issues => exact hw.congr rfl rfl
  | comes h => exact hw.welcome h
  | leaves h => exact hw.remove h
  | jumps h h' => exact (hw.remove h).welcome h'
  | @falls w₁ id e h =>
    rcases e.isPlayer
    · exact hw.remove h
    · exact (hw.remove h).congr rfl rfl
  | walks h id p _ => exact hw.act h id _
  | attacks h id _ => exact hw.act h id _
  | speaks => exact hw.congr rfl rfl
  | turns h report _ => exact hw.turn h report
  | notes => exact hw.congr rfl rfl

theorem Housed.activate (hw : w.Housed) {map : MapId} {g : Region}
    (h : w.activate map = .ok (g, w')) : w'.Housed :=
  (develops_activate (t := {}) h).keeps (fun h hv => hv.alters h) hw

/-- Everybody is housed whatever is asked, even if the entities that are added look like nothing
that a world brings forth. -/
theorem Housed.execute (hw : w.Housed) (c : Command) : (w.execute c).Housed := by
  cases c with
  | add e =>
    rw [World.execute]
    obtain ⟨err, h⟩ | ⟨-, g, w₁, hact, ⟨err, h⟩ | ⟨x, g', hcomes, h⟩⟩ := w.add_cases e <;> rw [h]
    · exact hw
    · exact hw.activate hact
    · exact (hw.activate hact).welcome hcomes
  | _ =>
    refine Develops.keeps (t := {}) (develops_execute trivial ?_) (fun h hv => hv.alters h) hw
    trivial

/-- In every world of a run everybody is housed, whatever was asked. -/
theorem housed_of_reaches {config : WorldConfig} {atlas : Atlas}
    (h : Reaches World.execute (fun _ _ => True) (empty config atlas) w) : w.Housed :=
  h.invariant (housed_empty config atlas) fun _ c hv _ => hv.execute c

/-! ### What a refusal leaves behind -/

/-- Nothing has happened, or a map has come into use. -/
def AtMostOpens (w : World) (map : MapId) (w' : World) : Prop :=
  w' = w ∨ w.region? map = none ∧ ∃ plan, w.atlas.plan map = some plan ∧ w' = w.opened map plan

/-- A map can be taken into use unless it is unknown. -/
theorem activate_eq_error_iff {map : MapId} {err : WorldError} :
    w.activate map = .error err ↔
      w.region? map = none ∧ w.atlas.plan map = none ∧ err = .unknownMap map := by
  rw [World.activate]
  rcases w.region? map with _ | g
  · rcases w.atlas.plan map with _ | plan
    · simp [eq_comm]
    · simp
  · simp

theorem atMostOpens_activate {map : MapId} {g : Region} (h : w.activate map = .ok (g, w')) :
    w.AtMostOpens map w' := by
  obtain ⟨-, rfl⟩ | ⟨hmap, plan, hplan, rfl, -⟩ := activate_eq_ok_iff.mp h
  · exact .inl rfl
  · exact .inr ⟨hmap, plan, hplan, rfl⟩

theorem locations_activate {map : MapId} {g : Region} (h : w.activate map = .ok (g, w')) :
    w'.locations = w.locations := by
  obtain ⟨-, rfl⟩ | ⟨-, plan, -, rfl, -⟩ := activate_eq_ok_iff.mp h <;> rfl

/-- An addition that is refused puts nobody anywhere, and if there is no such map then nothing has
happened at all. -/
theorem add_error {e : Entity} {err : WorldError} (h : (w.add e).1 = .error err) :
    w.AtMostOpens e.map (w.add e).2 ∧
      ((∃ cause, err = .insertion cause) ∨
        err = .unknownMap e.map ∧ w.region? e.map = none ∧ (w.add e).2 = w) := by
  rw [add] at h ⊢
  by_cases hin : w.locations.contains e.id = true
  · simp only [hin, if_true, Except.error.injEq] at h ⊢
    exact ⟨.inl rfl, .inl ⟨_, h.symm⟩⟩
  · rcases hact : w.activate e.map with err' | ⟨g, w₁⟩
    · obtain ⟨hmap, -, rfl⟩ := activate_eq_error_iff.mp hact
      simp only [hin, hact, Bool.false_eq_true, if_false, Except.error.injEq] at h ⊢
      exact ⟨.inl rfl, .inr ⟨h.symm, hmap, trivial⟩⟩
    · rcases hins : g.insert e with cause | ⟨x, g'⟩
      · simp only [hin, hact, hins, Bool.false_eq_true, if_false, Except.error.injEq] at h ⊢
        exact ⟨atMostOpens_activate hact, .inl ⟨cause, h.symm⟩⟩
      · simp [hin, hact, hins] at h

/-- A map that is in use is known, so that there is another reason if it refuses an entity. -/
theorem exists_insertion_of_add {e : Entity} {err : WorldError} (h : (w.add e).1 = .error err)
    (hmap : (w.region? e.map).isSome) : ∃ cause, err = .insertion cause := by
  obtain ⟨-, hinsertion | ⟨-, hnone, -⟩⟩ := add_error h
  · exact hinsertion
  · rw [hnone] at hmap
    cases hmap

/-- Whoever is listed on a map can be taken off it. -/
theorem Housed.exists_remove (hw : w.Housed) {id : EntityId} (h : w.locations.contains id = true)
    (cause : RemovalCause) : ∃ e w', w.remove id cause = some (e, w') := by
  obtain ⟨map, hmap⟩ := Option.ne_none_iff_exists'.mp (contains_locations.mp h)
  obtain ⟨g, e, hg, he⟩ := hw.here hmap
  have hentity : w.entity? id = some e := by simp [entity?, regionOf, hmap, hg, he]
  rcases hrem : w.remove id cause with _ | ⟨e', w'⟩
  · rw [remove_eq_none_iff.mp hrem] at hentity
    cases hentity
  · exact ⟨e', w', rfl⟩

/-- A warp that is refused before the entity has left its map has moved nobody, and only if the
target lies outside of its map that map may have come into use. -/
theorem warp_error (hw : w.Housed) {id : EntityId} {map : MapId} {p : Point} {err : WorldError}
    (h : (w.warp id map p).1 = .error err) (hearly : ∀ cause, err ≠ .insertion cause) :
    w.AtMostOpens map (w.warp id map p).2 ∧ (err = .invalidDestination id p ∨
      (err = .unknownEntity id ∨ err = .unknownMap map) ∧ (w.warp id map p).2 = w) := by
  rw [warp] at h ⊢
  by_cases hin : w.locations.contains id = true
  · rcases hact : w.activate map with err' | ⟨g, w₁⟩
    · obtain ⟨-, -, rfl⟩ := activate_eq_error_iff.mp hact
      simp only [hin, hact, Bool.not_true, Bool.false_eq_true, if_false, Except.error.injEq] at h ⊢
      exact ⟨.inl rfl, .inr ⟨.inr h.symm, trivial⟩⟩
    · have hopens := atMostOpens_activate hact
      by_cases hp : g.terrain.contains p = true
      · -- the entity has left its map, so that only an insertion can still fail
        exfalso
        have hin' : w₁.locations.contains id = true := by rwa [locations_activate hact]
        obtain ⟨e, w₂, hrem⟩ := (hw.activate hact).exists_remove hin' .warp
        have hmap : (w₂.region? map).isSome := by
          rw [isSome_region?_remove hrem, region?_of_activate hact]
          rfl
        rcases hadd : w₂.add (e.place map p) with ⟨err' | x, w₃⟩
        · obtain ⟨cause, rfl⟩ := exists_insertion_of_add (by rw [hadd]) hmap
          simp only [hin, hact, hp, hrem, hadd, Bool.not_true, Bool.false_eq_true, if_false,
            Except.error.injEq] at h
          exact hearly cause h.symm
        · simp [hin, hact, hp, hrem, hadd] at h
      · simp only [hin, hact, hp, Bool.not_true, Bool.not_false, Bool.false_eq_true, if_false, if_true,
          Except.error.injEq] at h ⊢
        exact ⟨hopens, .inl h.symm⟩
  · simp only [hin, Bool.not_false, if_true, Except.error.injEq] at h ⊢
    exact ⟨.inl rfl, .inr ⟨.inl h.symm, trivial⟩⟩

/-! ### Refusals -/

/-- What is asked of a world is refused, and the entity that it is about is still where it was: of
warps this leaves out those that the map at the other end refuses. -/
inductive Refuses (w : World) : Command → WorldError → Prop where
  /-- An entity is not added. -/
  | add {e : Entity} {err : WorldError} (h : (w.add e).1 = .error err) : Refuses w (.add e) err
  /-- A character does not enter. -/
  | enter {name : String} {err : WorldError} (h : (w.enter name).1 = .error err) :
    Refuses w (.enter name) err
  /-- An entity does not set out for another place. -/
  | warp {id : EntityId} {map : MapId} {p : Point} {err : WorldError}
    (h : (w.warp id map p).1 = .error err) (hearly : ∀ cause, err ≠ .insertion cause) :
    Refuses w (.warp id map p) err
  /-- An entity does not walk. -/
  | walk {id : EntityId} {p : Point} {err : WorldError} (h : w.setDestination id p = .error err) :
    Refuses w (.walk id p) err
  /-- An entity does not attack. -/
  | attack {id : EntityId} {err : WorldError} (h : w.attack id = .error err) :
    Refuses w (.attack id) err
  /-- An entity does not speak. -/
  | say {id : EntityId} {text : String} {err : WorldError} (h : w.say id text = .error err) :
    Refuses w (.say id text) err
  /-- A voice is not heard. -/
  | announce {map : MapId} {center : Point} {text : String} {err : WorldError}
    (h : w.announce map center text = .error err) : Refuses w (.announce map center text) err

/-- The map onto which a command would bring somebody. -/
def targetOf (w : World) : Command → Option MapId
  | .add e => some e.map
  | .enter name => some (w.characterOf name).map
  | .warp _ map _ => some map
  | _ => none

/-- How many identities a command uses up even if it is refused. -/
def Command.spends : Command → Nat
  | .enter _ => 1
  | _ => 0

/-- Everybody, everything that waits, the clock and every map that was in use are as they were, and
the scripts have not been called. -/
structure Intact (w w' : World) : Prop where
  config : w'.config = w.config
  atlas : w'.atlas = w.atlas
  entity? : ∀ id, w'.entity? id = w.entity? id
  locations : w'.locations = w.locations
  region? : ∀ {map g}, w.region? map = some g → w'.region? map = some g
  outbox : w'.outbox = w.outbox
  lost : w'.lost = w.lost
  deferred : w'.deferred = w.deferred
  ticks : w'.ticks = w.ticks
  calls : w'.calls = w.calls

theorem Intact.refl (w : World) : w.Intact w :=
  ⟨rfl, rfl, fun _ => rfl, rfl, fun h => h, rfl, rfl, rfl, rfl, rfl⟩

theorem Intact.trans {w'' : World} (h : w.Intact w') (h' : w'.Intact w'') : w.Intact w'' where
  config := h'.config.trans h.config
  atlas := h'.atlas.trans h.atlas
  entity? id := (h'.entity? id).trans (h.entity? id)
  locations := h'.locations.trans h.locations
  region? hg := h'.region? (h.region? hg)
  outbox := h'.outbox.trans h.outbox
  lost := h'.lost.trans h.lost
  deferred := h'.deferred.trans h.deferred
  ticks := h'.ticks.trans h.ticks
  calls := h'.calls.trans h.calls

/-- Nobody is found on a map that has only just come into use. -/
theorem entity?_opened {map : MapId} (hmap : w.region? map = none) (plan : MapPlan) (id : EntityId) :
    (w.opened map plan).entity? id = w.entity? id := by
  have hregion (m : MapId) : (w.opened map plan).region? m =
      if m = map then some (w.regionOfPlan map plan) else w.region? m := Table.getElem?_insert ..
  have hmapOf : (w.opened map plan).mapOf id = w.mapOf id := rfl
  simp only [World.entity?, regionOf, hmapOf]
  rcases w.mapOf id with _ | m
  · rfl
  · by_cases hm : m = map
    · simp [hregion, hm, hmap, regionOfPlan, Region.empty, Region.find?]
    · simp [hregion, hm]

/-- Taking a map into use leaves everything intact. -/
theorem AtMostOpens.intact {map : MapId} (h : w.AtMostOpens map w') : w.Intact w' := by
  obtain rfl | ⟨hmap, plan, -, rfl⟩ := h
  · exact .refl w'
  · refine ⟨rfl, rfl, entity?_opened hmap plan, rfl, fun {m g} hg => ?_, rfl, rfl, rfl, rfl, rfl⟩
    refine (Table.getElem?_insert ..).trans ((if_neg ?_).trans hg)
    rintro rfl
    rw [hmap] at hg
    cases hg

theorem error_of_map {α β ε : Type} {f : α → β} {x : Except ε α} {err : ε}
    (h : x.map f = .error err) : x = .error err := by
  cases x <;> simp_all [Except.map]

/-- The world in which the identity for a command has been given out. -/
def spent (w : World) (c : Command) : World := { w with issued := w.issued + c.spends }

/-- A refusal opens at most the map to which the command would have led, and only if the reason was
found on that map. -/
theorem Refuses.leaves (hw : w.Housed) {c : Command} {err : WorldError} (h : w.Refuses c err) :
    w.execute c = w.spent c ∨
      ((∃ cause, err = .insertion cause) ∨ ∃ id p, err = .invalidDestination id p) ∧
        ∃ map, w.targetOf c = some map ∧ (w.spent c).AtMostOpens map (w.execute c) := by
  cases h with
  | @add e err h =>
    obtain ⟨hopens, hcause | ⟨-, -, heq⟩⟩ := add_error h
    · exact .inr ⟨.inl hcause, e.map, rfl, hopens⟩
    · exact .inl heq
  | @enter name err h =>
    -- the identity is given out first, and then the character is added under it
    have hadd : (w.allocateId.2.add (.player w.allocateId.1 (w.characterOf name).looks
        (w.characterOf name).map (w.characterOf name).position)).1 = .error err := by
      rw [World.enter] at h
      exact error_of_map h
    obtain ⟨hopens, hcause | ⟨-, -, heq⟩⟩ := add_error hadd
    · exact .inr ⟨.inl hcause, _, rfl, hopens⟩
    · exact .inl heq
  | @warp id map p err h hearly =>
    obtain ⟨hopens, hcause | ⟨-, heq⟩⟩ := warp_error hw h hearly
    · exact .inr ⟨.inr ⟨id, p, hcause⟩, map, rfl, hopens⟩
    · exact .inl heq
  | walk h => exact .inl (by rw [execute, h]; rfl)
  | attack h => exact .inl (by rw [execute, h]; rfl)
  | say h => exact .inl (by rw [execute, h]; rfl)
  | announce h => exact .inl (by rw [execute, h]; rfl)

/-- Whatever a world that can be reached refuses, it is as it was, but for a map that may have come
into use with nobody on it, and an identity that a character would have had. No map comes into use
if the reason is that the map is unknown, or if whoever should go elsewhere is. -/
theorem intact_of_refuses {config : WorldConfig} {atlas : Atlas} {w : World} {c : Command}
    {err : WorldError} (h : Reaches execute (fun _ _ => True) (empty config atlas) w)
    (hrefuses : w.Refuses c err) :
    w.Intact (w.execute c) ∧ (w.execute c).issued = w.issued + c.spends ∧
    ((w.execute c).regions = w.regions ∨ ∃ map plan, w.targetOf c = some map ∧
      w.region? map = none ∧ w.atlas.plan map = some plan ∧
      (w.execute c).regions = w.regions.insert map
        (.empty map plan.terrain plan.fixtures (.ofMap w.config.seed map.val))) ∧
    (((∃ map, err = .unknownMap map) ∨ ∃ id, err = .unknownEntity id) →
      (w.execute c).regions = w.regions) := by
  have hspent : w.Intact (w.spent c) :=
    ⟨rfl, rfl, fun _ => rfl, rfl, fun h => h, rfl, rfl, rfl, rfl, rfl⟩
  obtain heq | ⟨hcause, map, htarget, hopens⟩ := hrefuses.leaves (housed_of_reaches h)
  · rw [heq]
    exact ⟨hspent, rfl, .inl rfl, fun _ => rfl⟩
  · refine ⟨hspent.trans hopens.intact, ?_, ?_, ?_⟩
    · obtain heq | ⟨-, plan, -, heq⟩ := hopens <;> rw [heq] <;> rfl
    · obtain heq | ⟨hmap, plan, hplan, heq⟩ := hopens
      · exact .inl (by rw [heq]; rfl)
      · exact .inr ⟨map, plan, htarget, hmap, hplan, by rw [heq]; rfl⟩
    · rintro (⟨m, rfl⟩ | ⟨id, rfl⟩) <;> simp at hcause

/-- Ann cannot go to a point that is on no map, and stays where she is. -/
theorem intact_of_refuses_meeting :
    meeting.Refuses (.warp (.nth 1) ⟨1⟩ ⟨9999, 9999⟩) (.invalidDestination (.nth 1) ⟨9999, 9999⟩) ∧
      meeting.Intact (meeting.execute (.warp (.nth 1) ⟨1⟩ ⟨9999, 9999⟩)) := by
  have hreach : Reaches execute (fun _ _ => True) (empty {} hamlet) meeting :=
    Reaches.foldl _ _ fun _ _ _ => trivial
  have hrefuses : meeting.Refuses (.warp (.nth 1) ⟨1⟩ ⟨9999, 9999⟩)
      (.invalidDestination (.nth 1) ⟨9999, 9999⟩) := .warp (by cbv) (by simp)
  exact ⟨hrefuses, (intact_of_refuses hreach hrefuses).1⟩

end World

end TileWorld
