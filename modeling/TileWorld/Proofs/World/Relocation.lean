import TileWorld.Proofs.World.Audience
import TileWorld.Proofs.World.Room

/-!
# Going elsewhere

A warp takes an entity off its map and then puts it on another one, or on the same one in another
place. By the time the second step fails the first has been taken. What is left of the entity on its
way is said once (`World.Departs`), and then there are two outcomes, according to whether anybody but
the entity itself has taken the last public id of the target: the entity arrives under the lowest id
that is to spare, or it is on no map any more (`World.relocation_of_reaches`).
-/

namespace TileWorld

namespace World

variable {config : WorldConfig} {atlas : Atlas} {w w' : World} {map old : MapId} {id : EntityId}
  {e : Entity} {x : PublicId} {p : Point} {plan : MapPlan} {ids : List EntityId}
  {P : Entity → Prop}

/-! ### Worlds in which identities are given out before they are used -/

/-- Whoever is added is new and has an identity that the world has given out. -/
def Permits (w : World) : Operation → Prop
  | .ask c => w.Allows c
  | _ => True

/-- Whatever has been done with a world, its maps have lasted, and it is sound as long as identities
have not come round. -/
theorem sound_of_performed (h : Reaches perform Permits (empty config atlas) w) :
    (w.issued < UInt32.size → w.Sound) ∧ w.Upkept atlas ∧ w.atlas = atlas := by
  refine h.invariant (P := fun v => (v.issued < UInt32.size → v.Sound) ∧ v.Upkept atlas ∧
    v.atlas = atlas) ⟨fun _ => sound_empty config atlas, upkept_empty config atlas, rfl⟩ ?_
  rintro v o ⟨hsound, hkept, hatlas⟩ ho
  cases o with
  | ask c =>
    have hdev : Develops {} v (v.execute c) := Allows.develops ho
    refine ⟨fun hlt => ?_, hkept.develops hatlas hdev⟩
    exact (hsound (Nat.lt_of_le_of_lt hdev.issued_le hlt)).develops hdev hlt
  | takeDeliveries | takeLost | takeCalls =>
    exact ⟨fun hlt => (hsound hlt).congr rfl rfl (Nat.le_refl _), hkept.congr rfl, hatlas⟩

/-! ### Leaving -/

/-- Only who is found on the map and what the range is matters for an audience. -/
theorem IsAudience.congr (h : w.IsAudience map P ids)
    (hfinds : ∀ k o, w'.Finds map k o ↔ w.Finds map k o) : w'.IsAudience map P ids where
  ascending := h.ascending
  mem_iff k := by
    rw [h.mem_iff]
    simp only [hfinds]

/-- The world `w'` is what is left of the world `w` when an entity has left the map `old` for a place on
`map`: it is on no map, all others in range have been told, the scripts have been told that it is gone,
and nobody else and no other map has been touched. -/
structure Departs (w : World) (old map : MapId) (e : Entity) (w' : World) : Prop where
  confined : ConfinedTo (fun m => m = old ∨ m = map) (fun _ k => k = e.id) w w'
  mapOf : w'.mapOf e.id = none
  gone : ∀ m o, ¬ w'.Finds m e.id o
  issued : w'.issued = w.issued
  calls : w'.calls = w.calls ++ [.removed { e with publicId := none }]
  said : ∃ y ids, e.publicId = some y ∧
    w.IsAudience old (fun q => e.isBeing = true ∧ q.id ≠ e.id ∧
      q.position.inRange e.position w.config.range = true) ids ∧
    w'.outbox = w.outbox ++ Delivery.toAll ids ⟨Opcode.beingLeave, Field.ofShort y.val⟩

theorem Sound.orderly (hw : w.Sound) : w.Orderly where
  id_eq hg := (hw.region hg).1
  here hid := hw.located.mp hid
  region hg := (hw.region hg).2

theorem Sound.activate (hw : w.Sound) (hlt : w.issued < UInt32.size) {g : Region}
    (hact : w.activate map = .ok (g, w')) : w'.Sound :=
  hw.develops (develops_activate (t := {}) hact) (by rwa [(frame_activate hact).issued])

/-- Who takes leave of an entity is known before its target has come into use, and so is the rest. -/
theorem Sound.departs (hw : w.Sound) (hlt : w.issued < UInt32.size) (he : w.Finds old e.id e)
    {w₁ : World} {g : Region} (hact : w.activate map = .ok (g, w₁)) {gone : Entity}
    (hrem : w₁.remove e.id .warp = some (gone, w')) :
    gone = { e with publicId := none } ∧ w.Departs old map e w' := by
  have hframe := frame_activate hact
  have hw₁ : w₁.Sound := hw.activate hlt hact
  have hsame (m : MapId) (k : EntityId) (o : Entity) : w₁.Finds m k o ↔ w.Finds m k o :=
    finds_activate_iff hact
  have hcalls : w₁.calls = w.calls := by
    obtain ⟨-, rfl⟩ | ⟨-, plan, -, rfl, -⟩ := activate_eq_ok_iff.mp hact <;> rfl
  have hmapOf : w'.mapOf e.id = none := by rw [mapOf_of_remove hrem, if_pos rfl]
  -- the entity that leaves is the one that is found on its map
  obtain ⟨m, q, y, ids, hm, hq, hgone, hy, hids, hsaid⟩ := hw₁.orderly.removes hrem
  obtain ⟨rfl, rfl⟩ := hw.finds_unique ((hsame ..).mp hq) he
  have hconfined : ConfinedTo (fun m' => m' = m ∨ m' = map) (fun _ k => k = q.id) w w' := by
    refine (confinedTo_activate (.inr rfl) _ hact).trans (confinedTo_remove hrem ?_ fun _ _ => rfl)
    intro m' hm'
    exact .inl (Option.some.inj (hm'.symm.trans hm))
  refine ⟨hgone, hconfined, hmapOf, fun m o ho => ?_,
    (frame_remove hrem).issued.trans hframe.issued, ?_, y, ids, hy, ?_,
    by rw [hsaid, outbox_activate hact]⟩
  · obtain ⟨g', hg', ho⟩ := ho
    have hlocated : w'.mapOf q.id = some m := (hw₁.remove hrem).located.mpr ⟨g', o, hg', ho⟩
    rw [hmapOf] at hlocated
    cases hlocated
  · obtain ⟨m, g₁, leaving, g₂, -, -, -, -, rfl⟩ := remove_eq_some_iff.mp hrem
    rw [← hgone]
    simp [hcalls]
  · rw [hframe.config] at hids
    exact hids.congr fun k o => (hsame ..).symm

/-! ### Numbers to spare -/

/-- Nobody but the entity itself has the public id on the map. -/
def Spare (w : World) (map : MapId) (id : EntityId) (x : PublicId) : Prop :=
  x ≠ .nobody ∧ ∀ k o, w.Finds map k o → k ≠ id → o.publicId ≠ some x

/-- When an entity has left for another place, the public ids to spare are those that nobody has. -/
theorem Departs.spare_iff (h : w.Departs old map e w') : w.Spare map e.id x ↔ w'.Unclaimed map x := by
  refine and_congr_right fun _ => ⟨fun hspare k o ho => ?_, fun hunclaimed k o ho hne => ?_⟩
  · have hne : k ≠ e.id := by
      rintro rfl
      exact h.gone map o ho
    exact hspare k o ((h.confined.finds map k o hne).mp ho) hne
  · exact hunclaimed k o ((h.confined.finds map k o hne).mpr ho)

/-! ### Arriving -/

/-- Who has left for a place where a public id is to spare can come there, and gets the lowest one;
if none is to spare it is refused. -/
theorem Departs.comes_or_refused (h : w.Departs old map e w') {g : Region}
    (hg : w'.region? map = some g) (hkept : g.Upkept map plan)
    (hp : plan.terrain.contains p = true) :
    (∃ x g', (w.Spare map e.id x ∧ ∀ y, w.Spare map e.id y → x.val ≤ y.val) ∧
      w'.Comes (Entity.place { e with publicId := none } map p) x g g') ∨
    ((∀ x, ¬ w.Spare map e.id x) ∧
      w'.add (Entity.place { e with publicId := none } map p) =
        (.error (.insertion (.noPublicId e.id map)), w')) := by
  simp only [h.spare_iff]
  obtain ⟨x, g', hcomes⟩ | hfull :=
    comes_or_full (e := Entity.place { e with publicId := none } map p) hg hkept h.mapOf (h.gone map)
      rfl hp
  · exact .inl ⟨x, g', hcomes.lowest hkept, hcomes⟩
  · exact .inr hfull

/-- What a player that comes is told, and when. -/
theorem arrivals_eq_ite (w : World) (e : Entity) : w.arrivals e =
    if e.isPlayer = true ∧ Field.Fits (w.mapTitle e.map) then
      [⟨e.id, ⟨Opcode.mapChange, Field.textBytes (w.mapTitle e.map) ++
        (Field.ofCoordinates e.position.x e.position.y ++ [0])⟩⟩]
    else [] := by
  rw [arrivals]
  by_cases hplayer : e.isPlayer = true
  · by_cases hfits : Field.Fits (w.mapTitle e.map)
    · rw [if_pos hplayer, if_pos ⟨hplayer, hfits⟩, mapNotice_eq_ok_iff.mpr ⟨hfits, rfl⟩]
    · rw [if_pos hplayer, if_neg fun h => hfits h.2]
      rcases hm : mapNotice (w.mapTitle e.map) e.position with err | m
      · rfl
      · exact absurd (mapNotice_eq_ok_iff.mp hm).1 hfits
  · rw [if_neg hplayer, if_neg fun h => hplayer h.1]

/-- A warp whose target exists comes down to leaving and being added. -/
theorem warp_of_remove {g : Region} {w₁ : World} {gone : Entity} (hid : w.mapOf id ≠ none)
    (hact : w.activate map = .ok (g, w₁)) (hp : g.terrain.contains p = true)
    (hrem : w₁.remove id .warp = some (gone, w')) :
    (∀ x v, w'.add (gone.place map p) = (.ok x, v) → w.warp id map p = (.ok x, v)) ∧
      ∀ err v, w'.add (gone.place map p) = (.error err, v) → w.warp id map p =
        (.error err, { v with lost := v.lost ++ if gone.isPlayer then [id] else [] }) := by
  have hin : w.locations.contains id = true := contains_locations.mpr hid
  constructor
  · intro x v hadd
    rw [warp]
    simp only [hin, hact, hp, hrem, hadd, Bool.not_true, Bool.false_eq_true, if_false]
  · intro err v hadd
    rw [warp]
    simp only [hin, hact, hp, hrem, hadd, Bool.not_true, Bool.false_eq_true, if_false]
    rcases gone.isPlayer <;> simp

/-- The first half of a warp, and what the second half has to do. -/
theorem Sound.exists_departs (hw : w.Sound) (hlt : w.issued < UInt32.size) (hkept : w.Upkept atlas)
    (hatlas : w.atlas = atlas) (he : w.Finds old e.id e) (hplan : atlas.plan map = some plan)
    (hp : plan.terrain.contains p = true) :
    ∃ w₂ g₂, w.Departs old map e w₂ ∧ w₂.region? map = some g₂ ∧ g₂.Upkept map plan ∧
      (∀ x v, w₂.add (Entity.place { e with publicId := none } map p) = (.ok x, v) →
        w.warp e.id map p = (.ok x, v)) ∧
      ∀ err v, w₂.add (Entity.place { e with publicId := none } map p) = (.error err, v) →
        w.warp e.id map p =
          (.error err, { v with lost := v.lost ++ if e.isPlayer then [e.id] else [] }) := by
  obtain ⟨g, hg, hfind⟩ := he
  have hid : w.mapOf e.id = some old := hw.located.mpr ⟨g, e, hg, hfind⟩
  have hmoving : w.mapOf e.id ≠ none := by rw [hid]; exact Option.some_ne_none old
  obtain ⟨g₁, w₁, hact, hkept₁, hkept'⟩ := hkept.exists_activate hatlas hplan
  have hmoving' : w₁.mapOf e.id ≠ none := by rwa [mapOf, locations_activate hact]
  have hw₁ := hw.activate hlt hact
  obtain ⟨gone, w₂, hrem⟩ :=
    hw₁.orderly.toHoused.exists_remove (contains_locations.mpr hmoving') .warp
  obtain ⟨rfl, hdeparts⟩ := hw.departs hlt ⟨g, hg, hfind⟩ hact hrem
  -- the target is in use when the entity has left
  obtain ⟨g₂, hg₂⟩ : ∃ g₂, w₂.region? map = some g₂ := by
    rw [← Option.isSome_iff_exists, isSome_region?_remove hrem]
    exact Option.isSome_of_eq_some (region?_of_activate hact)
  obtain ⟨plan', hplan', hkept₂⟩ := hkept'.remove hrem map g₂ hg₂
  obtain rfl : plan' = plan := Option.some.inj (hplan'.symm.trans hplan)
  exact ⟨w₂, g₂, hdeparts, hg₂, hkept₂,
    warp_of_remove hmoving hact (by rwa [hkept₁.terrain]) hrem⟩

/-- An entity that is on some map and is sent to a point of a map that exists leaves its map, once and
for all, and the scripts are told that it has gone and not that it has died. If its target has a
public id to spare, not counting the one that it has there itself, it arrives there under the lowest
such id, at rest and marked as new, and a player is told where it is. If there is none, it is on no map,
and a player is lost. Either way all others are as they were, and so are all maps but the one that it
leaves and the one to which it is sent. -/
theorem relocation_of_reaches (h : Reaches perform Permits (empty config atlas) w)
    (hlt : w.issued < UInt32.size) (hid : w.mapOf id = some old)
    (hplan : atlas.plan map = some plan) (hp : plan.terrain.contains p = true) :
    ∃ e y ids w', w.Finds old id e ∧ e.publicId = some y ∧
      w.IsAudience old (fun q => e.isBeing = true ∧ q.id ≠ id ∧
        q.position.inRange e.position w.config.range = true) ids ∧
      ConfinedTo (fun m => m = old ∨ m = map) (fun _ k => k = id) w { w' with lost := w.lost } ∧
      w'.issued = w.issued ∧
      w'.calls = w.calls ++ [.removed { e with publicId := none }] ∧
      ((∃ x, w.Spare map id x) →
        ∃ x, w.Spare map id x ∧ (∀ x', w.Spare map id x' → x.val ≤ x'.val) ∧
          w.warp id map p = (.ok x, w') ∧ w'.mapOf id = some map ∧
          (∀ m o, w'.Finds m id o ↔ m = map ∧ o =
            { e with
              map, position := p, oldPosition := p, destination := p,
              changes := { newOnMap := true }, publicId := some x }) ∧
          w'.lost = w.lost ∧
          w'.outbox = w.outbox ++
            Delivery.toAll ids ⟨Opcode.beingLeave, Field.ofShort y.val⟩ ++
            if e.isPlayer = true ∧ Field.Fits ((atlas.mapName map).getD (toString map.val)) then
              [⟨id, ⟨Opcode.mapChange,
                Field.textBytes ((atlas.mapName map).getD (toString map.val)) ++
                  (Field.ofCoordinates p.x p.y ++ [0])⟩⟩]
            else []) ∧
      ((∀ x, ¬ w.Spare map id x) →
        w.warp id map p = (.error (.insertion (.noPublicId id map)), w') ∧ w'.mapOf id = none ∧
          (∀ m o, ¬ w'.Finds m id o) ∧
          w'.lost = w.lost ++ (if e.isPlayer then [id] else []) ∧
          w'.outbox = w.outbox ++
            Delivery.toAll ids ⟨Opcode.beingLeave, Field.ofShort y.val⟩) := by
  obtain ⟨hsound, hkept, hatlas⟩ := sound_of_performed h
  have hw := hsound hlt
  obtain ⟨g, e, hg, he⟩ := hw.located.mp hid
  obtain rfl : e.id = id := (hw.region hg).2.placed.id_eq he
  obtain ⟨w₂, g₂, hdeparts, hg₂, hkept₂, hcome, hrefuse⟩ :=
    hw.exists_departs hlt hkept hatlas ⟨g, hg, he⟩ hplan hp
  obtain ⟨y, ids, hy, hids, hsaid⟩ := hdeparts.said
  have hlost : w₂.lost = w.lost := hdeparts.confined.rest.lost
  obtain ⟨x, g', ⟨hx, hlowest⟩, hcomes⟩ | ⟨hnone, hadd⟩ := hdeparts.comes_or_refused hg₂ hkept₂ hp
  · refine ⟨e, y, ids, w₂.welcome (Entity.place { e with publicId := none } map p) g', ⟨g, hg, he⟩,
      hy, hids, ?_, hdeparts.issued, hdeparts.calls, fun _ => ⟨x, hx, hlowest,
        hcome _ _ hcomes.add, ?_, ?_, hlost, ?_⟩, fun hnone => absurd hx (hnone x)⟩
    · rw [← hlost]
      exact hdeparts.confined.trans (confinedTo_welcome hcomes (.inr rfl) rfl)
    · exact (Table.getElem?_insert ..).trans (if_pos rfl)
    · intro m o
      rw [finds_welcome_iff hcomes]
      exact ⟨fun ho => (ho.resolve_left (hdeparts.gone m o)).imp_right And.right,
        fun ho => .inr ⟨ho.1, rfl, ho.2⟩⟩
    · have htitle : w₂.mapTitle map = (atlas.mapName map).getD (toString map.val) := by
        rw [mapTitle, hdeparts.confined.rest.atlas, hatlas]
      rw [← hsaid, ← htitle]
      exact congrArg (w₂.outbox ++ ·) (w₂.arrivals_eq_ite _)
  · refine ⟨e, y, ids, { w₂ with lost := w₂.lost ++ if e.isPlayer then [e.id] else [] }, ⟨g, hg, he⟩,
      hy, hids, ?_, hdeparts.issued, hdeparts.calls, fun hx => absurd hx (not_exists.mpr hnone),
      fun _ => ⟨hrefuse _ _ hadd, hdeparts.mapOf, hdeparts.gone, by rw [hlost], hsaid⟩⟩
    rw [← hlost]
    exact hdeparts.confined

/-! ### An example -/

/-- Two characters are at the place from which the ferry leaves, and the cave is not in use. -/
def quay : World :=
  [.ask (.enter "Ann"), .ask (.enter "Ben"), .takeDeliveries].foldl perform (empty {} ferry)

/-- Ann goes to the cave, which comes into use, and the scripts are told that she has left. -/
theorem relocation_at_quay :
    ∃ e w', quay.Finds ⟨1⟩ (.nth 1) e ∧
      quay.warp (.nth 1) ⟨2⟩ ⟨320, 320⟩ = (.ok ⟨0⟩, w') ∧ w'.mapOf (.nth 1) = some ⟨2⟩ ∧
      (∀ m o, w'.Finds m (.nth 1) o → m = ⟨2⟩ ∧ o.position = ⟨320, 320⟩) ∧
      w'.calls = quay.calls ++ [.removed { e with publicId := none }] := by
  have hreach : Reaches perform Permits (empty {} ferry) quay :=
    Reaches.foldl _ _ (by simp [Permits, Allows])
  have hissued : quay.issued = 2 := by cbv
  have hmap : quay.mapOf (.nth 1) = some ⟨1⟩ := by cbv
  have hunused : quay.region? ⟨2⟩ = none := by cbv
  -- nobody has a public id on a map that is not in use
  have hspare : quay.Spare ⟨2⟩ (.nth 1) ⟨0⟩ := by
    refine ⟨by decide, fun k o ho => ?_⟩
    obtain ⟨g, hg, -⟩ := ho
    rw [hunused] at hg
    cases hg
  have hplan : ferry.plan ⟨2⟩ = some ⟨.clear 20 20, []⟩ := rfl
  have hinside : (Terrain.clear 20 20).contains ⟨320, 320⟩ = true := by decide
  obtain ⟨e, y, ids, w', he, -, -, -, -, hcalls, harrives, -⟩ :=
    relocation_of_reaches hreach (by rw [hissued]; decide) hmap hplan hinside
  obtain ⟨x, -, hlowest, hwarp, hmap', hfinds, -⟩ := harrives ⟨_, hspare⟩
  obtain rfl : x = ⟨0⟩ := PublicId.eq_of_toNat_eq <|
    Nat.eq_zero_of_le_zero (UInt16.le_iff_toNat_le.mp (hlowest _ hspare))
  refine ⟨e, w', he, hwarp, hmap', fun m o ho => ?_, hcalls⟩
  obtain ⟨rfl, rfl⟩ := (hfinds m o).mp ho
  exact ⟨rfl, rfl⟩

end World

end TileWorld
