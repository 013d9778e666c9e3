import Mathlib
import TileWorld.Proofs.World.Soundness

/-!
# Where everybody is

Whatever has been asked of a world, and whether it was done or refused, the list of where everybody
is and the maps in use tell the same story: `World.representation_of_reaches`. Maps in use stay in
use (`World.Alters.isSome_region?`).
-/

namespace TileWorld

namespace World

variable {t : Terms} {w w' : World}

/-! ### Maps in use -/

/-- Writing about one map takes none out of use. -/
theorem isSome_getElem?_insert {regions : Table MapId Region} {m map : MapId} (g : Region)
    (h : regions[m]?.isSome) : (regions.insert map g)[m]?.isSome := by
  rw [Table.getElem?_insert]
  split
  · rfl
  · exact h

/-- Maps in use stay in use. -/
theorem Alters.isSome_region? (h : Alters t w w') {m : MapId} (hm : (w.region? m).isSome) :
    (w'.region? m).isSome := by
  cases h with
  | opens => exact isSome_getElem?_insert _ hm
  | comes => exact isSome_getElem?_insert _ hm
  | leaves h => rwa [isSome_region?_remove h]
  | jumps h =>
    rw [← isSome_region?_remove h] at hm
    exact isSome_getElem?_insert _ hm
  | @falls w₁ id e h =>
    rw [← isSome_region?_remove h] at hm
    rcases e.isPlayer <;> exact hm
  | walks => exact isSome_getElem?_insert _ hm
  | attacks => exact isSome_getElem?_insert _ hm
  | @turns map g h report =>
    obtain ⟨fixtures, heq⟩ := w.passRegion_eq g report
    rw [heq]
    exact isSome_getElem?_insert _ hm
  | _ => exact hm

/-! ### Runs -/

/-- An identity that has been given out has a number up to that of the last one. -/
theorem Issued.toNat_le {id : EntityId} (h : w.Issued id) : id.val.toNat ≤ w.issued := by
  obtain ⟨n, -, hn, rfl⟩ := h
  rw [EntityId.nth, UInt32.toNat_ofNat']
  exact Nat.le_trans (Nat.mod_le ..) hn

/-- In every world that can be reached, an entity is listed on a map exactly when the map is in use
and has it, nobody is on two maps, everybody on a map is what its map takes it for and lies inside
of it, and no map that is in use ever goes out of use. -/
theorem representation_of_reaches {config : WorldConfig} {atlas : Atlas} {w : World}
    (h : Reaches execute Allows (empty config atlas) w) (hlt : w.issued < UInt32.size) :
    (∀ id map, w.mapOf id = some map ↔ ∃ g, w.region? map = some g ∧ g.contains id = true) ∧
    (∀ id map map' g g', w.region? map = some g → w.region? map' = some g' →
      g.contains id = true → g'.contains id = true → map = map') ∧
    (∀ map g id e, w.region? map = some g → g.find? id = some e →
      e.map = map ∧ e.id = id ∧ (∃ x, e.publicId = some x ∧ x ≠ .nobody) ∧
        id.val.toNat ≤ w.issued ∧
        g.terrain.contains e.position = true ∧ g.terrain.contains e.oldPosition = true) ∧
    ∀ w', Reaches execute Allows w w' →
      ∀ map, (w.region? map).isSome → (w'.region? map).isSome := by
  have hw : w.Sound := (sound_empty config atlas).develops (develops_of_allows h) hlt
  have hcontains (g : Region) (id : EntityId) :
      g.contains id = true ↔ ∃ e, g.find? id = some e := by
    rw [Region.contains_eq_isSome, Option.isSome_iff_exists]
  have hlocated (id : EntityId) (map : MapId) :
      w.mapOf id = some map ↔ ∃ g, w.region? map = some g ∧ g.contains id = true := by
    simp only [hw.located, hcontains]
    exact ⟨fun ⟨g, e, hg, he⟩ => ⟨g, hg, e, he⟩, fun ⟨g, hg, e, he⟩ => ⟨g, e, hg, he⟩⟩
  refine ⟨hlocated, ?_, ?_, ?_⟩
  · intro id map map' g g' hg hg' hin hin'
    have hmap := (hlocated id map).mpr ⟨g, hg, hin⟩
    have hmap' := (hlocated id map').mpr ⟨g', hg', hin'⟩
    exact Option.some.inj (hmap.symm.trans hmap')
  · intro map g id e hg he
    obtain ⟨hid, hsound⟩ := hw.region hg
    obtain ⟨x, hx, hlt, -⟩ := hsound.numbered.taken he
    have hissued := hw.issued (hw.located.mpr ⟨g, e, hg, he⟩)
    exact ⟨(hsound.placed.map_eq he).trans hid, hsound.placed.id_eq he,
      ⟨x, hx, PublicId.ne_nobody hlt⟩, hissued.toNat_le, hsound.placed.inside he⟩
  · intro w' h' map hmap
    exact (develops_of_allows h').keeps (P := fun v => (v.region? map).isSome)
      (fun h => h.isSome_region?) hmap

/-! ### An example -/

/-- One map, on which all characters begin. -/
def hamlet : Atlas where
  plan map := if map = ⟨1⟩ then some ⟨.clear 120 120, []⟩ else none
  mapName map := if map = ⟨1⟩ then some "Hamlet" else none
  character _ := none

/-- Two characters have met there, and one of them sets out for another place. -/
def meeting : World :=
  [.enter "Ann", .enter "Ben", .tick, .walk (.nth 1) ⟨1700, 1600⟩].foldl execute (empty {} hamlet)

theorem issued_meeting : meeting.issued = 2 := by cbv

/-- The first character is listed on the hamlet, and is there. -/
theorem representation_at_meeting :
    meeting.mapOf (.nth 1) = some ⟨1⟩ ∧
      ∃ g, meeting.region? ⟨1⟩ = some g ∧ g.contains (.nth 1) = true := by
  have hreach : Reaches execute Allows (empty {} hamlet) meeting :=
    Reaches.foldl _ _ (by simp [Allows])
  have hmap : meeting.mapOf (.nth 1) = some ⟨1⟩ := by cbv
  obtain ⟨hlocated, -⟩ := representation_of_reaches hreach (by rw [issued_meeting]; decide)
  exact ⟨hmap, (hlocated _ _).mp hmap⟩

end World

end TileWorld
