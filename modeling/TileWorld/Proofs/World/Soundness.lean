import TileWorld.Proofs.World.Alters

/-!
# Sound worlds

A world keeps a list of where everybody is, and each of its maps knows who is on it. The two are
written to separately: by additions, removals and warps, and by monsters that come up in the middle
of a tick. In a sound world (`World.Sound`) they agree, every map is sound, and whoever is on a map
has an identity that was given out. Every change keeps a world sound, as long as identities do
not come round again (`World.Sound.alters`).
-/

namespace TileWorld

open Relation

/-- Identities are different as long as they do not come round. -/
theorem EntityId.nth_inj {m n : Nat} (hm : m < UInt32.size) (hn : n < UInt32.size) (h : nth m = nth n) :
    m = n := by
  have hval := congrArg (fun id => id.val.toNat) h
  simp only [nth, UInt32.toNat_ofNat'] at hval
  rw [UInt32.size] at hm hn
  omega

namespace World

variable {t : Terms} {w w' : World}

/-- Identities are never taken back. -/
theorem Alters.issued_le (h : Alters t w w') : w.issued ≤ w'.issued := by
  cases h with
  | issues => exact Nat.le_succ _
  | leaves h => exact Nat.le_of_eq (frame_remove h).issued.symm
  | jumps h => exact Nat.le_of_eq (frame_remove h).issued.symm
  | @falls w₁ id e h =>
    rcases e.isPlayer <;> exact Nat.le_of_eq (frame_remove h).issued.symm
  | @turns map g h report =>
    obtain ⟨fixtures, heq⟩ := w.passRegion_eq g report
    rw [heq]
    exact w.issued_le_worked g
  | _ => exact Nat.le_refl _

/-- Identities are not taken back. -/
theorem Develops.issued_le (h : Develops t w w') : w.issued ≤ w'.issued :=
  h.keeps (P := fun v => w.issued ≤ v.issued) (fun hv hle => Nat.le_trans hle hv.issued_le)
    (Nat.le_refl _)

/-- What was set about a world stays set. -/
theorem Alters.config_eq (h : Alters t w w') : w'.config = w.config := by
  cases h with
  | leaves h => exact (frame_remove h).config
  | jumps h => exact (frame_remove h).config
  | @falls w₁ id e h =>
    rcases e.isPlayer <;> exact (frame_remove h).config
  | @turns map g h report =>
    obtain ⟨fixtures, heq⟩ := w.passRegion_eq g report
    rw [heq]
    rfl
  | _ => rfl

/-! ### What soundness is -/

/-- The list of where everybody is and the maps agree, and all is well on every map. -/
structure Sound (w : World) : Prop where
  region : ∀ {map g}, w.region? map = some g → g.id = map ∧ g.Sound
  located : ∀ {id map}, w.mapOf id = some map ↔
    ∃ g e, w.region? map = some g ∧ g.find? id = some e
  issued : ∀ {id map}, w.mapOf id = some map → w.Issued id

theorem sound_empty (config : WorldConfig) (atlas : Atlas) : (empty config atlas).Sound where
  region h := by simp [empty, region?] at h
  located := by simp [empty, region?, mapOf]
  issued h := by simp [empty, mapOf] at h

/-- Whoever is listed on a map in use is there. -/
theorem Sound.mapOf_eq_iff (hw : w.Sound) {id : EntityId} {map : MapId} {g : Region}
    (hg : w.region? map = some g) : w.mapOf id = some map ↔ ∃ e, g.find? id = some e := by
  rw [hw.located]
  constructor
  · rintro ⟨g₀, e, hg₀, he⟩
    obtain rfl : g = g₀ := Option.some.inj (hg.symm.trans hg₀)
    exact ⟨e, he⟩
  · rintro ⟨e, he⟩
    exact ⟨g, e, hg, he⟩

/-- Nobody is on two maps. -/
theorem Sound.map_eq (hw : w.Sound) {id : EntityId} {map map' : MapId} {g g' : Region}
    {e e' : Entity} (hg : w.region? map = some g) (he : g.find? id = some e)
    (hg' : w.region? map' = some g') (he' : g'.find? id = some e') : map = map' := by
  have h := hw.located.mpr ⟨g, e, hg, he⟩
  have h' := hw.located.mpr ⟨g', e', hg', he'⟩
  exact Option.some.inj (h.symm.trans h')

/-- Later identities have not been given out, unless identities come round. -/
theorem not_issued_of_lt {n : Nat} (hn : w.issued < n) (hlt : n < UInt32.size) :
    ¬ w.Issued (.nth n) := by
  rintro ⟨i, -, hi, heq⟩
  have := EntityId.nth_inj hlt (Nat.lt_of_le_of_lt hi (by omega)) heq
  omega

/-- The next identity has not been given out, unless identities come round. -/
theorem not_issued_nth (hlt : w.issued + 1 < UInt32.size) : ¬ w.Issued (.nth (w.issued + 1)) :=
  not_issued_of_lt (Nat.lt_succ_self _) hlt

/-- The next identity belongs to nobody, unless identities come round. -/
theorem Sound.mapOf_nth (hw : w.Sound) (hlt : w.issued + 1 < UInt32.size) :
    w.mapOf (.nth (w.issued + 1)) = none := by
  rw [Option.eq_none_iff_forall_ne_some]
  exact fun map hmap => not_issued_nth hlt (hw.issued hmap)

/-! ### Keeping a world sound -/

/-- A world stays sound if one of its maps changes and the list of where everybody is changes with
it. -/
theorem Sound.update (hw : w.Sound) {map : MapId} {g : Region} (hid : g.id = map) (hg : g.Sound)
    (hregion : ∀ m, w'.region? m = if m = map then some g else w.region? m)
    (hhere : ∀ id, w'.mapOf id = some map ↔ ∃ e, g.find? id = some e)
    (hothers : ∀ id m, m ≠ map → (w'.mapOf id = some m ↔ w.mapOf id = some m))
    (hissued : ∀ id m, w'.mapOf id = some m → w'.Issued id) : w'.Sound where
  region {m g'} hm := by
    rw [hregion] at hm
    split at hm
    · cases hm
      rename_i heq
      exact ⟨hid.trans heq.symm, hg⟩
    · exact hw.region hm
  located {id m} := by
    rw [hregion]
    by_cases hm : m = map
    · rw [if_pos hm, hm, hhere]
      exact ⟨fun ⟨e, he⟩ => ⟨g, e, rfl, he⟩, fun ⟨g', e, hg', he⟩ => by cases hg'; exact ⟨e, he⟩⟩
    · rw [if_neg hm, hothers id m hm]
      exact hw.located
  issued {id m} hm := hissued id m hm

/-- A world stays sound if everybody on a map is changed where it is. -/
theorem Sound.rewrite (hw : w.Sound) {map : MapId} {g g' : Region} (hg : w.region? map = some g)
    {S : Entity → Entity → Prop} (h : Region.Rewrites S g g') (hg' : g'.Sound)
    (hregion : ∀ m, w'.region? m = if m = map then some g' else w.region? m)
    (hmapOf : ∀ id, w'.mapOf id = w.mapOf id) (hle : w.issued ≤ w'.issued) : w'.Sound := by
  refine hw.update (h.id.trans (hw.region hg).1) hg' hregion ?_ ?_ ?_
  · intro id
    rw [hmapOf, hw.mapOf_eq_iff hg]
    constructor
    · rintro ⟨e, he⟩
      obtain ⟨e', he', -⟩ := h.forth he
      exact ⟨e', he'⟩
    · rintro ⟨e', he'⟩
      obtain ⟨e, he, -⟩ := h.back he'
      exact ⟨e, he⟩
  · intro id m _
    rw [hmapOf]
  · intro id m hm
    rw [hmapOf] at hm
    exact (hw.issued hm).of_le hle

/-- A world stays sound if an entity that is on no map comes onto one and is marked as new. -/
theorem Sound.join (hw : w.Sound) {e : Entity} {x : PublicId} {g g' : Region}
    (h : w.Comes e x g g') (hrest : e.oldPosition = e.position)
    (hregion : ∀ m, w'.region? m = if m = e.map then some (g'.mark e.id) else w.region? m)
    (hmapOf : ∀ id, w'.mapOf id = if id = e.id then some e.map else w.mapOf id)
    (hissued : w'.Issued e.id) (hle : w.issued ≤ w'.issued) : w'.Sound := by
  obtain ⟨hid, hsound⟩ := hw.region h.region
  have hid' : (g'.mark e.id).id = e.map := (Region.id_of_insert h.insert).trans hid
  have hsound' : (g'.mark e.id).Sound := (hsound.insert h.insert hid.symm hrest).mark e.id
  refine hw.update hid' hsound' hregion ?_ ?_ ?_
  · intro id
    rw [hmapOf, Region.find?_mark_insert h.insert]
    split
    · simp
    · exact hw.mapOf_eq_iff h.region
  · intro id m hm
    -- the newcomer was on no map before and is on its own now
    rw [hmapOf]
    split
    · rename_i heq
      rw [heq, h.free]
      simp [hm.symm]
    · rfl
  · intro id m hm
    rw [hmapOf] at hm
    split at hm
    · rename_i heq
      rwa [heq]
    · exact (hw.issued hm).of_le hle

theorem Sound.remove (hw : w.Sound) {id : EntityId} {cause : RemovalCause} {e : Entity}
    (h : w.remove id cause = some (e, w')) : w'.Sound := by
  obtain ⟨map, g, leaving, g', hmap, hg, hleaving, hrem, rfl⟩ := remove_eq_some_iff.mp h
  obtain ⟨hid, hsound⟩ := hw.region hg
  have hid' : g'.id = map := (Region.id_of_remove hrem).trans hid
  have hmapOf (k : EntityId) : (w.locations.erase id)[k]? = if k = id then none else w.mapOf k :=
    Table.getElem?_erase ..
  refine hw.update hid' (hsound.remove hrem) (fun m => Table.getElem?_insert ..) (fun k => ?_)
    (fun k m hm => ?_) fun k m hm => ?_
  · show (w.locations.erase id)[k]? = _ ↔ _
    rw [hmapOf, Region.find?_remove hrem]
    split
    · simp
    · exact hw.mapOf_eq_iff hg
  · show (w.locations.erase id)[k]? = _ ↔ _
    rw [hmapOf]
    split
    · rename_i heq
      rw [heq, hmap]
      simp [hm.symm]
    · rfl
  · change (w.locations.erase id)[k]? = _ at hm
    rw [hmapOf] at hm
    split at hm
    · cases hm
    · exact hw.issued hm

/-- Only the maps, the list of where everybody is and the identities matter. -/
theorem Sound.congr (hw : w.Sound) (hregions : w'.regions = w.regions)
    (hlocations : w'.locations = w.locations) (hle : w.issued ≤ w'.issued) : w'.Sound where
  region h := hw.region (by rwa [region?, hregions] at h)
  located := by
    simp only [mapOf, region?, hregions, hlocations]
    exact hw.located
  issued h := (hw.issued (by rwa [mapOf, hlocations] at h)).of_le hle

end World

/-! ### The turn of a map -/

namespace Bookkeeping

/-- The world with all that is in the books, the map as it is at the moment included. -/
def apply (b : Bookkeeping) (w : World) : World := b.enter w b.region

variable {b : Bookkeeping} {w : World}

/-- What is in the books shows on the map that they are about. -/
theorem region?_apply (b : Bookkeeping) (w : World) (m : MapId) :
    (b.apply w).region? m = if m = b.region.id then some b.region else w.region? m :=
  Table.getElem?_insert ..

theorem region?_apply_self (b : Bookkeeping) (w : World) :
    (b.apply w).region? b.region.id = some b.region := by
  rw [region?_apply, if_pos rfl]

/-- If something else is entered about the map in the books, only that map is different. -/
theorem region?_enter (b' : Bookkeeping) {g : Region} (h : g.id = b.region.id) (m : MapId) :
    (b'.enter w g).region? m = if m = b.region.id then some g else (b.apply w).region? m := by
  rw [region?_apply, ← h]
  refine (Table.getElem?_insert ..).trans ?_
  split <;> rfl

/-- A world with the books entered stays sound while fixtures work. -/
theorem kept_sound (w : World) : Kept fun b => b.issued < UInt32.size → (b.apply w).Sound where
  draws b random hb hlt := by
    have hw := hb hlt
    have hsound := (hw.region (b.region?_apply_self w)).2.congr random b.region.fixtures
    refine hw.rewrite (b.region?_apply_self w) (S := fun e e' => e' = e) ?_ hsound
      (region?_enter _ rfl) (fun id => rfl) (Nat.le_refl _)
    exact ⟨rfl, rfl, rfl, fun h => ⟨_, h, rfl⟩, fun h => ⟨_, h, rfl⟩⟩
  wastes b hb hlt := (hb (Nat.lt_of_succ_lt hlt)).congr rfl rfl (Nat.le_succ _)
  sends b ps map p _ hb hlt := (hb hlt).congr rfl rfl (Nat.le_refl _)
  spawns b sort p x g' hb hins hlt := by
    have hw := hb (Nat.lt_of_succ_lt hlt)
    have hid : g'.id = b.region.id := Region.id_of_insert hins
    -- the monster gets the next identity, which nobody has
    have hcomes : (b.apply w).Comes (.monster (.nth (b.issued + 1)) sort b.region.id p) x
        b.region g' :=
      ⟨hw.mapOf_nth hlt, b.region?_apply_self w, hins⟩
    exact hw.join hcomes rfl (region?_enter _ hid) (fun id => Table.getElem?_insert ..)
      ⟨b.issued + 1, Nat.succ_pos _, Nat.le_refl _, rfl⟩ (Nat.le_succ _)

end Bookkeeping

namespace World

variable {t : Terms} {w w' : World}

/-- When the fixtures of a map have worked, all is still well. -/
theorem Sound.worked (hw : w.Sound) {map : MapId} {g : Region} (hg : w.region? map = some g)
    (hlt : (w.worked g).issued < UInt32.size) : ((w.worked g).apply w).Sound := by
  refine (Bookkeeping.kept_sound w).runAll (b := w.books g) ?_ g.fixtures hlt
  intro _
  obtain ⟨hid, hsound⟩ := hw.region hg
  refine hw.rewrite hg (Region.rewrites_advance g) hsound.advance ?_ (fun id => rfl)
    (Nat.le_refl _)
  intro m
  rw [← hid]
  exact (w.books g).region?_apply w m

/-- The map on which the fixtures have worked is sound, whatever has become of them. -/
theorem Sound.fitted_worked (hw : w.Sound) {map : MapId} {g : Region} (hg : w.region? map = some g)
    (hlt : (w.worked g).issued < UInt32.size) (fixtures : List Fixture) :
    ((w.worked g).region.fitted fixtures).Sound :=
  ((hw.worked hg hlt).region ((w.worked g).region?_apply_self w)).2.congr _ fixtures

/-- All is well after the turn of a map. -/
theorem Sound.turn (hw : w.Sound) {map : MapId} {g : Region} (hg : w.region? map = some g)
    (report : TickReport) (hlt : (w.passRegion g report).2.issued < UInt32.size) :
    (w.passRegion g report).2.Sound := by
  obtain ⟨fixtures, heq⟩ := w.passRegion_eq g report
  rw [heq] at hlt ⊢
  have hworked := hw.worked hg hlt
  have hregion := (w.worked g).region?_apply_self w
  have hsound := hw.fitted_worked hg hlt fixtures
  have hclear := Region.rewrites_clearChanges ((w.worked g).region.fitted fixtures)
  exact hworked.rewrite hregion ⟨hclear.id, hclear.terrain, hclear.publicIds, hclear.back,
    hclear.forth⟩ hsound.clearChanges (Bookkeeping.region?_enter (w.worked g) rfl) (fun id => rfl)
    (Nat.le_refl _)

/-! ### Every change -/

theorem Sound.congr_lost (hw : w.Sound) {p : Prop} [Decidable p] (ids : List EntityId) :
    (if p then { w with lost := w.lost ++ ids } else w).Sound := by
  split
  · exact hw.congr rfl rfl (Nat.le_refl _)
  · exact hw

/-- What happens to an entity that stays where it is leaves a world sound. -/
theorem Sound.act (hw : w.Sound) {map : MapId} {g : Region} (hg : w.region? map = some g)
    (id : EntityId) {f : Entity → Entity} (hf : ∀ e : Entity, e.Stays (f e)) :
    (w.setRegion (g.modify id f)).Sound := by
  obtain ⟨hid, hsound⟩ := hw.region hg
  refine hw.rewrite hg (Region.rewrites_modify g id f) (hsound.modify id hf) ?_
    (fun id => rfl) (Nat.le_refl _)
  intro m
  rw [← hid]
  exact Table.getElem?_insert ..

/-- An entity that has come leaves the world sound if its identity was given out. -/
theorem Sound.welcome (hw : w.Sound) {e : Entity} {x : PublicId} {g g' : Region}
    (h : w.Comes e x g g') (hrest : e.AtRest) (hissued : w.Issued e.id) :
    (w.welcome e g').Sound :=
  hw.join h hrest.oldPosition (fun _ => Table.getElem?_insert ..)
    (fun _ => Table.getElem?_insert ..) hissued (Nat.le_refl _)

/-- Whoever can be taken off its map has an identity that was given out, and keeps it. -/
theorem Sound.issued_remove (hw : w.Sound) {id : EntityId} {cause : RemovalCause} {e : Entity}
    (h : w.remove id cause = some (e, w')) : e.id = id ∧ w'.Issued id := by
  have hissued : w'.issued = w.issued := (frame_remove h).issued
  obtain ⟨map, g, leaving, g', hmap, hg, hleaving, hrem, -⟩ := remove_eq_some_iff.mp h
  obtain ⟨e₀, he₀, rfl, -⟩ := Region.remove_eq_some_iff.mp hrem
  have hid : e₀.id = id := (hw.region hg).2.placed.id_eq he₀
  exact ⟨hid, (hw.issued hmap).of_le (Nat.le_of_eq hissued.symm)⟩

/-- Every change keeps a world sound as long as identities do not come round. -/
theorem Sound.alters (hw : w.Sound) (h : Alters t w w') (hlt : w'.issued < UInt32.size) :
    w'.Sound := by
  cases h with
  | @opens map plan hmap hplan =>
    have hempty : (w.regionOfPlan map plan).Sound := Region.sound_empty ..
    have hid : (w.regionOfPlan map plan).id = map := rfl
    refine hw.update hid hempty (fun _ => Table.getElem?_insert ..) (fun id => ?_)
      (fun id m _ => Iff.rfl) fun id m hm => hw.issued hm
    -- nobody was on the map before it came into use
    rw [show (w.opened map plan).mapOf id = w.mapOf id from rfl, hw.located, hmap]
    simp [regionOfPlan, Region.empty, Region.find?]
  | issues => exact hw.congr rfl rfl (Nat.le_succ _)
  | comes h hrest _ hissued => exact hw.welcome h hrest hissued
  | leaves h => exact hw.remove h
  | @jumps w₁ id e map p x g g' h h' =>
    obtain ⟨hid, hissued⟩ := hw.issued_remove h
    exact (hw.remove h).welcome h' (e.atRest_place map p) (by rwa [← hid] at hissued)
  | falls h => exact (hw.remove h).congr_lost _
  | walks h id p _ => exact hw.act h id fun e => e.stays_walkTo p
  | attacks h id => exact hw.act h id fun e => e.stays_raise _
  | speaks => exact hw.congr rfl rfl (Nat.le_refl _)
  | turns h report => exact hw.turn h report hlt
  | notes => exact hw.congr rfl rfl (Nat.le_refl _)

/-- All is well whatever happens. -/
theorem Sound.develops (hw : w.Sound) (h : Develops t w w') (hlt : w'.issued < UInt32.size) :
    w'.Sound := by
  induction h with
  | refl => exact hw
  | tail _ h ih => exact (ih (Nat.lt_of_le_of_lt h.issued_le hlt)).alters h hlt

/-- What every change of a sound world keeps is kept in a sequence of changes. -/
theorem Sound.keeps {P : World → Prop} (hw : w.Sound) (h : Develops t w w')
    (hP : ∀ {v v'}, v.Sound → Alters t v v' → v'.issued < UInt32.size → P v → P v')
    (hstart : P w) (hlt : w'.issued < UInt32.size) : P w' := by
  induction h with
  | refl => exact hstart
  | tail hdev h ih =>
    have hlt' := Nat.lt_of_le_of_lt h.issued_le hlt
    exact hP (hw.develops hdev hlt') h hlt (ih hlt')

/-! ### Ticks -/

theorem Sound.passMap (hw : w.Sound) (map : MapId) (report : TickReport)
    (hlt : (passMap map (report, w)).2.issued < UInt32.size) : (passMap map (report, w)).2.Sound :=
  hw.develops (w.develops_passMap_ofTick map report) hlt

theorem Sound.tick (hw : w.Sound) (hlt : w.tick.2.issued < UInt32.size) : w.tick.2.Sound :=
  hw.develops w.develops_tick_ofTick hlt

theorem issued_le_tick (w : World) : w.issued ≤ w.tick.2.issued := w.develops_tick_ofTick.issued_le

/-- The turn of a map that is not in use changes nothing. That of a map in use is followed by the
changes that wait then, and the world is sound in between. -/
theorem Sound.passMap_cases (hw : w.Sound) (map : MapId) (report : TickReport)
    (hlt : (World.passMap map (report, w)).2.issued < UInt32.size) :
    (w.region? map = none ∧ (World.passMap map (report, w)).2 = w) ∨
      ∃ g report', w.region? map = some g ∧ (w.passRegion g report).2.Sound ∧
        (w.passRegion g report).2.issued < UInt32.size ∧
        (World.passMap map (report, w)).2 = ((w.passRegion g report).2.settle report').2 := by
  rw [World.passMap] at hlt ⊢
  rcases hg : w.region? map with _ | g
  · exact .inl ⟨rfl, rfl⟩
  · simp only [hg] at hlt ⊢
    have hsettle := (w.passRegion g report).2.develops_settle_ofTick (w.passRegion g report).1
    have hlt' := Nat.lt_of_le_of_lt hsettle.issued_le hlt
    exact .inr ⟨g, _, rfl, hw.turn hg report hlt', hlt', rfl⟩

/-- What holds of a sound world while some maps are still to have their turn, and outlives one turn,
holds when all of them have had it. -/
theorem Sound.tick_eq_settle {I : List MapId → World → Prop} (hw : w.Sound)
    (hpass : ∀ map maps v report, v.Sound → I (map :: maps) v →
      (World.passMap map (report, v)).2.issued < UInt32.size →
        I maps (World.passMap map (report, v)).2)
    (hstart : I w.regions.keys { w with ticks := w.ticks + 1 })
    (hlt : w.tick.2.issued < UInt32.size) :
    ∃ report v, v.Sound ∧ I [] v ∧ w.tick.2 = (v.settle report).2 := by
  obtain ⟨report, v, hI, heq⟩ := World.tick_eq_settle (w := w)
    (I := fun maps v => v.issued < UInt32.size → v.Sound ∧ I maps v)
    (fun map maps v report hI hlt => by
      have hpassed := v.develops_passMap_ofTick map report
      obtain ⟨hsound, hv⟩ := hI (Nat.lt_of_le_of_lt hpassed.issued_le hlt)
      exact ⟨hsound.passMap map report hlt, hpass map maps v report hsound hv hlt⟩)
    fun _ => ⟨hw.congr rfl rfl (Nat.le_refl _), hstart⟩
  have hsettle := v.develops_settle_ofTick report
  obtain ⟨hsound, hv⟩ := hI (Nat.lt_of_le_of_lt hsettle.issued_le (heq ▸ hlt))
  exact ⟨report, v, hsound, hv, heq⟩

end World

end TileWorld
