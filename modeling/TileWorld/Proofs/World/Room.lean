import TileWorld.Proofs.World.Confinement
import TileWorld.Proofs.World.Order
import TileWorld.Proofs.World.Upkeep

/-!
# Room on a map

Somebody who is nowhere and has no public id can come onto a map if the point where it is to stand is
on the map and nobody has some public id there (`World.HasRoom`). Nothing else decides
(`World.Upkept.add_cases`), because a map that lasts has given out all public ids that are not free.
-/

namespace TileWorld

namespace World

variable {w w' : World} {map : MapId} {p : Point} {x : PublicId} {e : Entity} {g g' : Region}
  {plan : MapPlan}

/-- Nobody on the map has the public id. -/
def Unclaimed (w : World) (map : MapId) (x : PublicId) : Prop :=
  x ≠ .nobody ∧ ∀ k o, w.Finds map k o → o.publicId ≠ some x

/-- There is room at a place: the map exists, the place lies on it, and a public id is left. -/
def HasRoom (w : World) (map : MapId) (p : Point) : Prop :=
  ∃ plan, w.atlas.plan map = some plan ∧ plan.terrain.contains p = true ∧ ∃ x, w.Unclaimed map x

/-- All public ids but that of nobody can be given out. -/
theorem lt_nobody_iff : x.val < PublicId.nobody.val ↔ x ≠ .nobody := by
  refine ⟨PublicId.ne_nobody, fun hne => UInt16.lt_iff_toNat_lt.mpr ?_⟩
  have hbound : x.val.toNat < 65536 := x.val.toNat_lt
  have hother : x.val.toNat ≠ PublicId.nobody.val.toNat := fun heq => hne (PublicId.eq_of_toNat_eq heq)
  have hlast : PublicId.nobody.val.toNat = 65535 := rfl
  omega

/-- On a map in order, the public ids that nobody has are free. -/
theorem unclaimed_iff_free (hg : w.region? map = some g) (hkept : g.Upkept map plan) :
    w.Unclaimed map x ↔ g.publicIds.Free x := by
  rw [hkept.allotted.free_iff, lt_nobody_iff, Unclaimed, Region.Uses]
  simp only [finds_iff hg]
  exact and_congr_right fun _ => ⟨fun h ⟨k, o, ho, hx⟩ => h k o ho hx,
    fun h k o ho hx => h ⟨k, o, ho, hx⟩⟩

/-- Who has which public id does not depend on which maps are in use. -/
theorem unclaimed_activate_iff (h : w.activate map = .ok (g, w')) {m : MapId} :
    w'.Unclaimed m x ↔ w.Unclaimed m x := by
  simp only [Unclaimed, finds_activate_iff h]

/-- Whoever comes onto its map gets the lowest public id that nobody has there. -/
theorem Comes.lowest (h : w.Comes e x g g') (hkept : g.Upkept e.map plan) :
    w.Unclaimed e.map x ∧ ∀ y, w.Unclaimed e.map y → x.val ≤ y.val := by
  have hiff (y : PublicId) : w.Unclaimed e.map y ↔ g.publicIds.Free y :=
    unclaimed_iff_free h.region hkept
  obtain ⟨hx, hlowest⟩ := hkept.allotted.lowest_of_insert h.insert
  refine ⟨(hiff x).mpr (hkept.allotted.free_iff.mpr hx), fun y hy => hlowest y ?_⟩
  exact (hkept.allotted.free_iff.mp ((hiff y).mp hy)).2

theorem add_eq_of_insert_eq_error {err : InsertError} (hmap : w.mapOf e.id = none)
    (hg : w.region? e.map = some g) (hins : g.insert e = .error err) :
    w.add e = (.error (.insertion err), w) := by
  have hin : ¬ w.locations.contains e.id = true := fun hin => contains_locations.mp hin hmap
  have hact : w.activate e.map = .ok (g, w) := activate_eq_ok_iff.mpr (.inl ⟨hg, rfl⟩)
  rw [add, if_neg hin]
  simp only [hact, hins]

/-- Who is nowhere comes onto a map in use that has the point where it is to stand, or all public ids
are claimed there and it is refused for that. -/
theorem comes_or_full (hg : w.region? e.map = some g) (hkept : g.Upkept e.map plan)
    (hmap : w.mapOf e.id = none) (hgone : ∀ o, ¬ w.Finds e.map e.id o) (hid : e.publicId = none)
    (hp : plan.terrain.contains e.position = true) :
    (∃ x g', w.Comes e x g g') ∨
      ((∀ x, ¬ w.Unclaimed e.map x) ∧
        w.add e = (.error (.insertion (.noPublicId e.id e.map)), w)) := by
  have hinside : g.terrain.contains e.position = true := by rwa [hkept.terrain]
  have hfind : g.find? e.id = none :=
    Option.eq_none_iff_forall_ne_some.mpr fun o ho => hgone o ((finds_iff hg).mpr ho)
  rcases htake : g.publicIds.take with _ | ⟨x, publicIds⟩
  · refine .inr ⟨fun x hx => ?_, add_eq_of_insert_eq_error hmap hg ?_⟩
    · exact IdPool.take_eq_none_iff.mp htake x ((unclaimed_iff_free hg hkept).mp hx)
    · have hnew : g.contains e.id = false := by rw [Region.contains_eq_isSome, hfind]; rfl
      rw [← hkept.id_eq]
      exact (Region.insert_eq_noPublicId_iff hid hnew hinside).mpr htake
  · exact .inl ⟨x, _, hmap, hg, Region.insert_eq_ok_iff.mpr
      ⟨hid, hfind, hinside, publicIds, htake, rfl⟩⟩

/-- Who is on no map comes onto its map exactly if there is room for it, and gets the lowest public id
that is left. If there is none, the map may come into use, and that is all. -/
theorem Upkept.add_cases (hw : w.Upkept w.atlas) (hmap : w.mapOf e.id = none)
    (hgone : ∀ o, ¬ w.Finds e.map e.id o) (hid : e.publicId = none) :
    ∃ w', ConfinedTo (· = e.map) (fun _ _ => False) w w' ∧ w'.outbox = w.outbox ∧
      ((w.HasRoom e.map e.position ∧ ∃ x g g', w'.Comes e x g g' ∧
          w.add e = (.ok x, w'.welcome e g') ∧
          w.Unclaimed e.map x ∧ ∀ y, w.Unclaimed e.map y → x.val ≤ y.val) ∨
        (¬ w.HasRoom e.map e.position ∧ ∃ err, w.add e = (.error err, w'))) := by
  have hin : ¬ w.locations.contains e.id = true := fun h => contains_locations.mp h hmap
  rcases hplan : w.atlas.plan e.map with _ | plan
  · have hunused : w.region? e.map = none := by
      by_contra hne
      obtain ⟨g, hg⟩ := Option.ne_none_iff_exists'.mp hne
      obtain ⟨plan, hplan', -⟩ := hw e.map g hg
      simp [hplan] at hplan'
    have hact : w.activate e.map = .error (.unknownMap e.map) := by rw [activate, hunused, hplan]
    refine ⟨w, .refl _ _ w, rfl, .inr ⟨fun hroom => ?_, .unknownMap e.map, ?_⟩⟩
    · obtain ⟨plan, hplan', -⟩ := hroom
      simp [hplan] at hplan'
    · rw [add, if_neg hin, hact]
  · obtain ⟨g, w', hact, hkept, -⟩ := hw.exists_activate rfl hplan
    have hg := region?_of_activate hact
    have hmap' : w'.mapOf e.id = none := by rwa [mapOf, locations_activate hact]
    have hgone' (o : Entity) : ¬ w'.Finds e.map e.id o := fun ho =>
      hgone o ((finds_activate_iff hact).mp ho)
    -- the map is in use now, so that it is not taken into use again
    have hadd : w.add e = w'.add e := by
      have hact' : w'.activate e.map = .ok (g, w') := activate_eq_ok_iff.mpr (.inl ⟨hg, rfl⟩)
      have hin' : ¬ w'.locations.contains e.id = true := fun h => contains_locations.mp h hmap'
      rw [add, add, if_neg hin, if_neg hin', hact, hact']
    refine ⟨w', confinedTo_activate (M := (· = e.map)) rfl _ hact, outbox_activate hact, ?_⟩
    have hroom : w.HasRoom e.map e.position ↔
        plan.terrain.contains e.position = true ∧ ∃ x, w'.Unclaimed e.map x := by
      simp only [HasRoom, hplan, Option.some.injEq, exists_eq_left', unclaimed_activate_iff hact]
    rw [hroom, hadd]
    by_cases hp : plan.terrain.contains e.position = true
    · obtain ⟨x, g', hcomes⟩ | ⟨hfull, hrefused⟩ := comes_or_full hg hkept hmap' hgone' hid hp
      · have hlowest := hcomes.lowest hkept
        refine .inl ⟨⟨hp, x, hlowest.1⟩, x, g, g', hcomes, hcomes.add, ?_⟩
        simpa only [unclaimed_activate_iff hact] using hlowest
      · exact .inr ⟨fun h => not_exists.mpr hfull h.2, _, hrefused⟩
    · rcases hins : g.insert e with err | ⟨x, g'⟩
      · exact .inr ⟨fun h => hp h.1, _, add_eq_of_insert_eq_error hmap' hg hins⟩
      · obtain ⟨-, -, hinside, -⟩ := Region.insert_eq_ok_iff.mp hins
        exact absurd (hkept.terrain ▸ hinside) hp

end World

end TileWorld
