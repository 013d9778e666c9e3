import TileWorld.Proofs.Region.Soundness
import TileWorld.World.Command

/-!
# What becomes of those who come and go

When an entity can come onto its map, leave it, or go to another place, and what the world is
afterwards. An addition or a warp that fails leaves the world as it was, but for a map that may
have come into use (`add_cases`) and for an entity that may be lost on the way (`warp_cases`).
-/

namespace TileWorld

namespace World

/-! ### Coming -/

/-- A map as it is when it comes into use. -/
def regionOfPlan (w : World) (map : MapId) (plan : MapPlan) : Region :=
  .empty map plan.terrain plan.fixtures (.ofMap w.config.seed map.val)

/-- The world with a map taken into use. -/
def opened (w : World) (map : MapId) (plan : MapPlan) : World :=
  { w with regions := w.regions.insert map (w.regionOfPlan map plan) }

/-- What is said when an entity comes: a player is told where it is. -/
def arrivals (w : World) (e : Entity) : List Delivery :=
  if e.isPlayer then
    match mapNotice (w.mapTitle e.map) e.position with
    | .ok message => [⟨e.id, message⟩]
    | .error _ => []
  else []

/-- The world after an entity has come onto its map, where `g` is the map with the entity on it. -/
def welcome (w : World) (e : Entity) (g : Region) : World :=
  { w with
    regions := w.regions.insert e.map (g.mark e.id)
    locations := w.locations.insert e.id e.map
    outbox := w.outbox ++ w.arrivals e }

/-- An entity that is on no map can come onto its map: there it gets a public id. -/
structure Comes (w : World) (e : Entity) (x : PublicId) (g g' : Region) : Prop where
  free : w.mapOf e.id = none
  region : w.region? e.map = some g
  insert : g.insert e = .ok (x, g')

variable {w w' : World}

theorem contains_locations {id : EntityId} :
    w.locations.contains id = true ↔ w.mapOf id ≠ none := by
  rw [mapOf, Std.ExtTreeMap.contains_eq_isSome_getElem?, Option.isSome_iff_ne_none]

/-- Taking a map into use does nothing if it is in use already. -/
theorem activate_eq_ok_iff {map : MapId} {g : Region} :
    w.activate map = .ok (g, w') ↔ (w.region? map = some g ∧ w' = w) ∨
      (w.region? map = none ∧ ∃ plan, w.atlas.plan map = some plan ∧ w' = w.opened map plan ∧
        g = w.regionOfPlan map plan) := by
  rw [activate]
  rcases w.region? map with _ | g₀
  · rcases w.atlas.plan map with _ | plan
    · simp
    · simp only [Except.ok.injEq, Prod.mk.injEq, reduceCtorEq, false_and, true_and,
        Option.some.injEq, exists_eq_left', false_or]
      rw [and_comm, eq_comm, @eq_comm _ _ g]
      rfl
  · simp [eq_comm]

/-- Once a map has been taken into use it is in use. -/
theorem region?_of_activate {map : MapId} {g : Region} (h : w.activate map = .ok (g, w')) :
    w'.region? map = some g := by
  obtain ⟨hg, rfl⟩ | ⟨-, plan, -, rfl, rfl⟩ := activate_eq_ok_iff.mp h
  · exact hg
  · exact (Table.getElem?_insert ..).trans (if_pos rfl)

theorem post_arrivals (w : World) (e : Entity) :
    w.post (w.arrivals e) =
      if e.isPlayer then w.postArrival e.id e.map e.position else w := by
  rw [arrivals]
  rcases e.isPlayer
  · simp only [Bool.false_eq_true, if_false, post, List.append_nil]
  · simp only [if_true, postArrival]
    rcases mapNotice (w.mapTitle e.map) e.position with err | m
    · simp only [post, List.append_nil]
    · rfl

/-- An entity that is added comes, or it does not and nothing has changed but that its map may have
come into use. -/
theorem add_cases (w : World) (e : Entity) :
    (∃ err, w.add e = (.error err, w)) ∨ w.mapOf e.id = none ∧
      ∃ g w₁, w.activate e.map = .ok (g, w₁) ∧
        ((∃ err, w.add e = (.error err, w₁)) ∨
          ∃ x g', Comes w₁ e x g g' ∧ w.add e = (.ok x, w₁.welcome e g')) := by
  rw [add]
  by_cases hfree : w.mapOf e.id = none
  · rw [if_neg (by rw [contains_locations]; exact not_not_intro hfree)]
    rcases hact : w.activate e.map with err | ⟨g, w₁⟩
    · exact .inl ⟨err, rfl⟩
    · refine .inr ⟨hfree, g, w₁, rfl, ?_⟩
      rcases hins : g.insert e with err | ⟨x, g'⟩
      · exact .inl ⟨.insertion err, by simp only [hins]⟩
      · refine .inr ⟨x, g', ⟨?_, region?_of_activate hact, hins⟩, ?_⟩
        · obtain ⟨-, rfl⟩ | ⟨-, plan, -, rfl, -⟩ := activate_eq_ok_iff.mp hact <;> exact hfree
        · simp only [hins, ← post_arrivals]
          rfl
  · rw [if_pos (contains_locations.mpr hfree)]
    exact .inl ⟨_, rfl⟩

/-- Whoever comes is listed on its map, and everybody else as before. -/
theorem mapOf_welcome (w : World) (e : Entity) (g : Region) (k : EntityId) :
    (w.welcome e g).mapOf k = if k = e.id then some e.map else w.mapOf k :=
  Table.getElem?_insert ..

/-- Who can come onto its map and is added comes. -/
theorem Comes.add {e : Entity} {x : PublicId} {g g' : Region} (h : w.Comes e x g g') :
    w.add e = (.ok x, w.welcome e g') := by
  have hfree : ¬ w.locations.contains e.id = true := fun hin => contains_locations.mp hin h.free
  have hact : w.activate e.map = .ok (g, w) := activate_eq_ok_iff.mpr (.inl ⟨h.region, rfl⟩)
  rw [World.add, if_neg hfree]
  simp only [hact, h.insert, ← post_arrivals]
  rfl

/-! ### Leaving -/

/-- When an entity can be taken off its map, and what becomes of the world then. -/
theorem remove_eq_some_iff {id : EntityId} {cause : RemovalCause} {e : Entity} :
    w.remove id cause = some (e, w') ↔ ∃ map g leaving g', w.mapOf id = some map ∧
      w.region? map = some g ∧ g.find? id = some leaving ∧ g.remove id = some (e, g') ∧
        w' = { w with
          regions := w.regions.insert map g'
          locations := w.locations.erase id
          outbox := w.outbox ++ w.farewells g leaving
          calls := w.calls ++ (if cause = .death then [ScriptCall.died e] else []) ++
            [.removed e] } := by
  simp only [remove, Option.bind_eq_bind, Option.bind_eq_some_iff, Prod.exists, Option.pure_def,
    Option.some.injEq, Prod.mk.injEq]
  constructor
  · rintro ⟨map, hmap, g, hg, leaving, hleaving, e₀, g', hrem, rfl, rfl⟩
    exact ⟨map, g, leaving, g', hmap, hg, hleaving, hrem, rfl⟩
  · rintro ⟨map, g, leaving, g', hmap, hg, hleaving, hrem, rfl⟩
    exact ⟨map, hmap, g, hg, leaving, hleaving, e, g', hrem, rfl, rfl⟩

/-- Whoever leaves is not listed any more, and everybody else is listed as before. -/
theorem mapOf_of_remove {id : EntityId} {cause : RemovalCause} {e : Entity}
    (h : w.remove id cause = some (e, w')) (k : EntityId) :
    w'.mapOf k = if k = id then none else w.mapOf k := by
  obtain ⟨map, g, leaving, g', -, -, -, -, rfl⟩ := remove_eq_some_iff.mp h
  exact Table.getElem?_erase ..

/-- An entity can be taken off its map exactly when it is on one. -/
theorem remove_eq_none_iff {id : EntityId} {cause : RemovalCause} :
    w.remove id cause = none ↔ w.entity? id = none := by
  have hregion (g : Region) : g.remove id = none ↔ g.find? id = none := by
    rw [Region.remove]
    rcases g.find? id <;> simp
  rw [remove, entity?, regionOf]
  rcases w.mapOf id with _ | map
  · simp
  · rcases hg : w.region? map with _ | g
    · simp [hg]
    · rcases he : g.find? id with _ | e
      · simp [hg, he]
      · rcases hrem : g.remove id with _ | r
        · exact absurd ((hregion g).mp hrem) (by simp [he])
        · simp [hg, he, hrem]

/-- Maps stay in use when somebody leaves. -/
theorem isSome_region?_remove {id : EntityId} {cause : RemovalCause} {e : Entity}
    (h : w.remove id cause = some (e, w')) (map : MapId) :
    (w'.region? map).isSome = (w.region? map).isSome := by
  obtain ⟨m, g, leaving, g', -, hg, -, -, rfl⟩ := remove_eq_some_iff.mp h
  rw [region?] at hg
  simp only [region?, Table.getElem?_insert]
  split
  · rename_i heq
    rw [heq, hg, Option.isSome_some, Option.isSome_some]
  · rfl

/-- A map that is in use is not taken into use. -/
theorem eq_of_activate {map : MapId} {g : Region} (h : w.activate map = .ok (g, w'))
    (hin : (w.region? map).isSome) : w' = w := by
  obtain ⟨-, rfl⟩ | ⟨hnone, -⟩ := activate_eq_ok_iff.mp h
  · rfl
  · simp [hnone] at hin

/-- A warp does nothing, or takes a map into use, or takes the entity to its target, or loses it
on the way. -/
theorem warp_cases (w : World) (id : EntityId) (map : MapId) (p : Point) :
    (∃ err, w.warp id map p = (.error err, w)) ∨ ∃ g w₁, w.activate map = .ok (g, w₁) ∧
      ((∃ err, w.warp id map p = (.error err, w₁)) ∨
        ∃ e w₂, w₁.remove id .warp = some (e, w₂) ∧
          ((∃ err, w.warp id map p =
              (.error err, if e.isPlayer then { w₂ with lost := w₂.lost ++ [id] } else w₂)) ∨
            ∃ x g g', Comes w₂ (e.place map p) x g g' ∧
              w.warp id map p = (.ok x, w₂.welcome (e.place map p) g'))) := by
  rw [warp]
  by_cases hid : w.locations.contains id = true
  · rw [if_neg (by simp [hid])]
    rcases hact : w.activate map with err | ⟨g, w₁⟩
    · exact .inl ⟨err, rfl⟩
    · refine .inr ⟨g, w₁, rfl, ?_⟩
      by_cases hp : g.terrain.contains p = true
      · simp only [hp, Bool.not_true, Bool.false_eq_true, if_false]
        rcases hrem : w₁.remove id .warp with _ | ⟨e, w₂⟩
        · exact .inl ⟨_, rfl⟩
        · refine .inr ⟨e, w₂, rfl, ?_⟩
          obtain ⟨err, hadd⟩ | ⟨-, g₂, w₃, hact₂, ⟨err, hadd⟩ | ⟨x, g', hcomes, hadd⟩⟩ :=
            w₂.add_cases (e.place map p)
          · exact .inl ⟨err, by simp only [hadd]⟩
          all_goals
            -- the target was in use before the entity left
            obtain rfl : w₃ = w₂ := eq_of_activate hact₂ <| by
              rw [isSome_region?_remove hrem]
              exact Option.isSome_of_eq_some (region?_of_activate hact)
          · exact .inl ⟨err, by simp only [hadd]⟩
          · exact .inr ⟨x, g₂, g', hcomes, by simp only [hadd]⟩
      · exact .inl ⟨.invalidDestination id p, by simp [hp]⟩
  · exact .inl ⟨.unknownEntity id, if_pos (by rw [Bool.eq_false_iff.mpr hid]; rfl)⟩

/-! ### What is left alone -/

/-- What does not depend on who is where is the same in both worlds. -/
structure Frame (w w' : World) : Prop where
  config : w'.config = w.config
  deferred : w'.deferred = w.deferred
  issued : w'.issued = w.issued
  lost : w'.lost = w.lost

theorem Frame.trans {w'' : World} (h : w.Frame w') (h' : w'.Frame w'') : w.Frame w'' :=
  ⟨h'.config.trans h.config, h'.deferred.trans h.deferred, h'.issued.trans h.issued,
    h'.lost.trans h.lost⟩

theorem frame_activate {map : MapId} {g : Region} (h : w.activate map = .ok (g, w')) :
    w.Frame w' := by
  obtain ⟨-, rfl⟩ | ⟨-, plan, -, rfl, -⟩ := activate_eq_ok_iff.mp h <;> exact ⟨rfl, rfl, rfl, rfl⟩

theorem frame_remove {id : EntityId} {cause : RemovalCause} {e : Entity}
    (h : w.remove id cause = some (e, w')) : w.Frame w' := by
  obtain ⟨map, g, leaving, g', -, -, -, -, rfl⟩ := remove_eq_some_iff.mp h
  exact ⟨rfl, rfl, rfl, rfl⟩

/-- An addition puts nothing down for the end of a pass. -/
theorem deferred_add (w : World) (e : Entity) : (w.add e).2.deferred = w.deferred := by
  obtain ⟨err, h⟩ | ⟨-, g, w₁, hact, ⟨err, h⟩ | ⟨x, g', -, h⟩⟩ := w.add_cases e
  · rw [h]
  · rw [h]
    exact (frame_activate hact).deferred
  · rw [h]
    exact (frame_activate hact).deferred

/-- A warp puts nothing down for the end of a pass, and it gives out no identity. -/
theorem deferred_warp_and_issued_warp (w : World) (id : EntityId) (map : MapId) (p : Point) :
    (w.warp id map p).2.deferred = w.deferred ∧ (w.warp id map p).2.issued = w.issued := by
  obtain ⟨err, h⟩ | ⟨g, w₁, hact, ⟨err, h⟩ | ⟨e, w₂, hrem, hrest⟩⟩ := w.warp_cases id map p
  · rw [h]
    exact ⟨rfl, rfl⟩
  · rw [h]
    exact ⟨(frame_activate hact).deferred, (frame_activate hact).issued⟩
  · have hframe : w.Frame w₂ := (frame_activate hact).trans (frame_remove hrem)
    obtain ⟨err, h⟩ | ⟨x, g₂, g', -, h⟩ := hrest <;> rw [h]
    · rcases e.isPlayer <;> exact ⟨hframe.deferred, hframe.issued⟩
    · exact ⟨hframe.deferred, hframe.issued⟩

theorem deferred_warp (w : World) (id : EntityId) (map : MapId) (p : Point) :
    (w.warp id map p).2.deferred = w.deferred :=
  (w.deferred_warp_and_issued_warp id map p).1

theorem issued_warp (w : World) (id : EntityId) (map : MapId) (p : Point) :
    (w.warp id map p).2.issued = w.issued :=
  (w.deferred_warp_and_issued_warp id map p).2

end World

end TileWorld
