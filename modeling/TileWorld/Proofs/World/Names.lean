import TileWorld.Proofs.World.Round
import TileWorld.Proofs.World.View

/-!
# Names that fit

A name that is too long cannot be written, and a player who would have to be told it is told nothing
at all in that tick. If no such name comes into a world there is none in it (`World.Named.develops`),
whether or not identities have come round, and where all names fit all news can be written
(`Region.Named.exists_diff`).
-/

namespace TileWorld

namespace Region

/-- All names on the map fit. -/
def Named (g : Region) : Prop := ∀ k e, g.find? k = some e → e.kind.NameFits

/-- Where all names fit, all news can be written. -/
theorem Named.exists_diff {g : Region} (hg : g.Named) (p : Entity) (range : UInt16) :
    ∃ ms, g.diff p range = .ok ms := by
  refine ⟨_, diff_eq_ok fun e he => ?_⟩
  obtain ⟨k, hk⟩ := mem_entities_iff.mp (mem_entities_of_mem_candidates (List.mem_filter.mp he).1)
  exact hg k e hk

/-- Whoever lives on as what it is keeps its name. -/
theorem Named.rewrites {g g' : Region} (hg : g.Named) {S : Entity → Entity → Prop}
    (h : Rewrites S g g') (hS : ∀ {e e'}, S e e' → e.Persists e') : g'.Named := by
  intro k o ho
  obtain ⟨e, he, hS'⟩ := h.back ho
  exact (hS hS').nameFits (hg k e he)

end Region

/-- Monsters that come up have no names. -/
theorem Bookkeeping.kept_named : Kept fun b => b.region.Named where
  draws b random hb := hb
  wastes b hb := hb
  sends b ps map p _ hb := hb
  spawns b sort p x g' hb hins k e hk := by
    obtain ⟨-, rfl⟩ | ⟨-, hk⟩ := Region.find?_mark_insert_cases hins hk
    · intro looks hlooks
      cases hlooks
    · exact hb k e hk

namespace World

variable {t : Terms} {w w' : World} {map : MapId} {id : EntityId} {e : Entity} {g : Region}

/-- All names fit. -/
def Named (w : World) : Prop := ∀ m k e, w.Finds m k e → e.kind.NameFits

theorem Named.region (hw : w.Named) (hg : w.region? map = some g) : g.Named :=
  fun k e hk => hw map k e ⟨g, hg, hk⟩

/-- It is enough to look at the one map that has changed. -/
theorem Named.update (hw : w.Named) (hg : g.Named)
    (hregion : ∀ m, w'.region? m = if m = map then some g else w.region? m) : w'.Named := by
  intro m k o ho
  obtain ⟨-, hk⟩ | ⟨-, hk⟩ := (finds_update_iff hregion).mp ho
  · exact hg k o hk
  · exact hw m k o hk

theorem Named.remove (hw : w.Named) {cause : RemovalCause} (h : w.remove id cause = some (e, w')) :
    e.kind.NameFits ∧ w'.Named := by
  refine ⟨?_, fun m k o ho => hw m k o (finds_of_remove h ho)⟩
  obtain ⟨map, g, leaving, g', -, hg, -, hrem, -⟩ := remove_eq_some_iff.mp h
  obtain ⟨e₀, he₀, rfl, -⟩ := Region.remove_eq_some_iff.mp hrem
  have hname : e₀.kind.NameFits := hw map id e₀ ⟨g, hg, he₀⟩
  exact hname

theorem Named.welcome (hw : w.Named) {x : PublicId} {g g' : Region} (h : w.Comes e x g g')
    (hname : e.kind.NameFits) : (w.welcome e g').Named := by
  intro m k o ho
  obtain ho | ⟨-, rfl⟩ := finds_of_welcome h ho
  · exact hw m k o ho
  · exact hname

/-- When the fixtures of a map have worked, all names on it fit still. -/
theorem named_arranged (hg : g.Named) (w : World) : (w.arranged g).Named := by
  have hbooks : (w.books g).region.Named :=
    hg.rewrites (Region.rewrites_advance g) fun {e _} ⟨r, heq⟩ => heq ▸ e.persists_live g.terrain r
  exact Bookkeeping.kept_named.runAll hbooks g.fixtures

/-- All names fit after the turn of a map. -/
theorem Named.turn (hw : w.Named) (hg : w.region? map = some g) (report : TickReport) :
    (w.passRegion g report).2.Named :=
  hw.update ((named_arranged (hw.region hg) w).rewrites
    (Region.rewrites_clearChanges (w.arranged g)) fun {e _} heq => heq ▸ e.persists_clearChanges)
    fun _ => Table.getElem?_insert ..

/-- What somebody does where it is changes no name. -/
theorem Named.act (hw : w.Named) (hg : w.region? map = some g) (id : EntityId)
    {f : Entity → Entity} (hf : ∀ e : Entity, e.Stays (f e)) :
    (w.setRegion (g.modify id f)).Named := by
  refine hw.update (g := g.modify id f) ?_ fun _ => Table.getElem?_insert ..
  refine (hw.region hg).rewrites (Region.rewrites_modify g id f) fun {e _} heq => ?_
  obtain rfl | rfl := heq
  · exact .refl _
  · exact (hf _).toPersists

theorem Named.opened (hw : w.Named) (map : MapId) (plan : MapPlan) : (w.opened map plan).Named := by
  refine hw.update (g := w.regionOfPlan map plan) (fun k e hk => ?_) fun _ => Table.getElem?_insert ..
  simp [regionOfPlan, Region.empty, Region.find?] at hk

theorem Named.alters (hw : w.Named) (ht : ∀ kind, t.comes kind → kind.NameFits)
    (h : Alters t w w') : w'.Named := by
  cases h with
  | opens => exact hw.opened _ _
  | comes h _ hkind => exact hw.welcome h (ht _ hkind)
  | leaves h => exact (hw.remove h).2
  | @jumps w₁ id e map p x g g' h h' =>
    have hname : (e.place map p).kind.NameFits := (hw.remove h).1
    exact (hw.remove h).2.welcome h' hname
  | @falls w₁ id e h =>
    have hnamed := (hw.remove h).2
    rcases e.isPlayer <;> exact hnamed
  | walks hg id p => exact hw.act hg id fun e => e.stays_walkTo p
  | attacks hg id => exact hw.act hg id fun e => e.stays_raise _
  | turns hg report => exact hw.turn hg report
  | _ => exact hw

/-- All names fit whatever happens, if the names of all who come fit. -/
theorem Named.develops (hw : w.Named) (ht : ∀ kind, t.comes kind → kind.NameFits)
    (h : Develops t w w') : w'.Named :=
  h.keeps (P := Named) (fun h hv => hv.alters ht h) hw

theorem named_empty (config : WorldConfig) (atlas : Atlas) : (empty config atlas).Named := by
  simp [Named, Finds, empty, region?]

/-- In a run in which only names come that fit, all names fit. -/
theorem named_of_reaches {config : WorldConfig} {atlas : Atlas}
    (h : Reaches execute AdmitsFitting (empty config atlas) w) : w.Named :=
  (named_empty config atlas).develops (fun _ h => h)
    (develops_of_reaches (fun _ _ => develops_of_admitsFitting) h)

/-! ### What else is written -/

/-- A text that fits can be said, if somebody is there to say it. -/
theorem say_ne_wire {text : String} (h : Field.Fits text) (w : World) (id : EntityId)
    (err : WireError) : w.say id text ≠ .error (.wire err) := by
  intro hsay
  rw [World.say] at hsay
  split at hsay
  · cases hsay
  split at hsay
  · cases hsay
  rename_i speaker _
  rw [chatNotice_eq_ok_iff.mpr ⟨h, rfl⟩] at hsay
  cases hsay

/-- A map can be announced if its name fits; a number always does. -/
theorem exists_mapNotice_iff (w : World) (map : MapId) (p : Point) :
    (∃ m, mapNotice (w.mapTitle map) p = .ok m) ↔
      ∀ name, w.atlas.mapName map = some name → Field.Fits name := by
  simp only [mapNotice_eq_ok_iff, exists_and_left, exists_eq, and_true, mapTitle]
  rcases w.atlas.mapName map with _ | name
  · simp [Field.fits_toString]
  · simp

end World

end TileWorld
