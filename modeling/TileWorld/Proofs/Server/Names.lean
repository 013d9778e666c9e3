import TileWorld.Proofs.Catalog.Contents
import TileWorld.Proofs.Client.Requests
import TileWorld.Proofs.Server.Commands
import TileWorld.Proofs.World.Chronicle
import TileWorld.Proofs.World.Names

/-!
# A server says all that it has to say

Names and texts come to a server in frames, and a frame cannot carry one that does not fit. A catalog
knows characters by their names, so a character that is asked for by a name has that name. Hence all
names in the world of a server with a catalog fit, no player goes without its news, and no text that
is said is too long: `Server.encodes_of_reaches`. The only texts that may not fit are the names of
maps, which come from the catalog.
-/

namespace TileWorld

open World

namespace Catalog

/-- The catalog is that of a document. -/
def Given (catalog : Catalog) : Prop := ∃ d, catalog = ofDocument d

/-- The catalog to start with is given by a document as well. -/
theorem given_demo : demo.Given := ⟨_, rfl⟩

/-- A catalog that has been read from a text is that of the document that the text describes. -/
theorem given_of_parse {text : String} {catalog : Catalog} (h : parse text = .ok catalog) :
    catalog.Given := by
  rw [parse] at h
  split at h
  · cases h
    exact ⟨_, rfl⟩
  · cases h

/-- A catalog knows each character by its name. -/
theorem Given.name_of_character {catalog : Catalog} (h : catalog.Given) {name : String}
    {record : CharacterRecord} (hrecord : catalog.atlas.character name = some record) :
    record.looks.name = name := by
  obtain ⟨d, rfl⟩ := h
  exact (character_ofDocument_iff.mp hrecord).key_eq

end Catalog

namespace Request

/-- Whatever a frame carries fits. -/
theorem fits_of_decode {frame : Bytes} {q : Request} (h : decode frame = .ok q) {s : String}
    (hs : q.text? = some s) : Field.Fits s := by
  obtain ⟨m, hm, -⟩ := decode_eq_ok_iff.mp h
  exact (encode_eq_ok_iff.mp hm).1 s hs

end Request

namespace Server

variable {s : Server} {event : Event} {catalog : Catalog} {config : WorldConfig} {w : World}

/-- The catalog tells of a character by its name, and the world of new ones that are asked for. -/
theorem fits_characterOf (h : catalog.Given) (hatlas : w.atlas = catalog.atlas) {name : String}
    (hname : Field.Fits name) : Field.Fits (w.characterOf name).looks.name := by
  rw [characterOf, hatlas]
  rcases hrecord : catalog.atlas.character name with _ | record
  · exact hname
  · rwa [Option.getD_some, h.name_of_character hrecord]

/-- Whatever a server asks of its world brings only names that fit. -/
theorem named_of_mayAsk (h : catalog.Given) {k : Command} (hk : MayAsk event k)
    (hw : w.Named ∧ w.atlas = catalog.atlas) :
    (w.execute k).Named ∧ (w.execute k).atlas = catalog.atlas := by
  obtain ⟨hnamed, hatlas⟩ := hw
  have hbrings : w.Brings EntityKind.NameFits k := by
    cases hk with
    | enter hname =>
      exact nameFits_player (fits_characterOf h hatlas (Request.fits_of_decode hname rfl))
    | _ => exact trivial
  have hallows : w.Allows k := by cases hk <;> exact trivial
  have hdev := develops_execute hallows hbrings
  refine ⟨hnamed.develops (fun _ h => h) hdev, ?_⟩
  exact hdev.keeps (P := fun v => v.atlas = catalog.atlas) (fun h hv => h.atlas_eq.trans hv) hatlas

/-- Whatever has come to a server with the catalog of a document, the names in its world fit, those of the
characters that clients can ask for and those of whoever is there in the middle of a tick included. So
all players can be told their news, now and in the next tick, and all that clients say can be said. A
map can be announced if its own name fits. -/
theorem encodes_of_reaches (hcatalog : catalog.Given)
    (h : Reaches (fun s event => (s.handle event).2) (fun _ _ => True)
      (fresh config catalog.atlas) s) :
    (∀ map g, s.world.region? map = some g → ∀ p ∈ g.players, ∀ range,
      ∃ ms, g.diff p range = .ok ms) ∧
    (∀ v g, .turn v g ∈ s.world.moments → ∀ p ∈ (v.arranged g).players,
      ∃ ms, (v.arranged g).diff p v.config.range = .ok ms) ∧
    (∀ frame text, Request.decode frame = .ok (.say text) →
      ∀ e err, s.world.say e text ≠ .error (.wire err)) ∧
    (∀ frame name, Request.decode frame = .ok (.enter name) →
      Field.Fits (s.world.characterOf name).looks.name) ∧
    s.world.Named ∧
    ∀ map p, (∃ m, mapNotice (s.world.mapTitle map) p = .ok m) ↔
      ∀ name, catalog.atlas.mapName map = some name → Field.Fits name := by
  obtain ⟨hnamed, hatlas⟩ : s.world.Named ∧ s.world.atlas = catalog.atlas :=
    h.invariant (P := fun s => s.world.Named ∧ s.world.atlas = catalog.atlas)
      ⟨named_empty config catalog.atlas, rfl⟩ fun v event hv _ =>
        keeps_handle (P := fun w => w.Named ∧ w.atlas = catalog.atlas)
          (fun _ _ hk hw => named_of_mayAsk hcatalog hk hw) (fun _ _ hw => hw) hv
  refine ⟨fun map g hg p _ range => (hnamed.region hg).exists_diff p range,
    fun v g hturn p _ => ?_,
    fun frame text hframe e err => say_ne_wire (Request.fits_of_decode hframe rfl) s.world e err,
    fun frame name hframe => fits_characterOf hcatalog hatlas (Request.fits_of_decode hframe rfl),
    hnamed, fun map p => ?_⟩
  · obtain ⟨hdev, map, hg⟩ := develops_of_turn hturn
    have hregion := (hnamed.develops (fun _ hno => False.elim hno) hdev).region hg
    exact (named_arranged hregion v).exists_diff p _
  · have hname := exists_mapNotice_iff s.world map p
    rwa [hatlas] at hname

/-- Ann comes to the place where characters begin, and a tick passes. -/
def debut : Server :=
  [.connect (home 1), .frame (home 1) (asking (.enter "Ann")), .tick].foldl
    (fun s event => (s.handle event).2) (fresh {} Catalog.demo.atlas)

/-- There is somebody who can be told her news. -/
theorem encodes_at_debut : ∃ g p ms, debut.world.region? ⟨1⟩ = some g ∧ p ∈ g.players ∧
    g.diff p debut.world.config.range = .ok ms := by
  have hreaches : Reaches (fun s event => (s.handle event).2) (fun _ _ => True)
      (fresh {} Catalog.demo.atlas) debut := .foldl _ _ fun _ _ _ => trivial
  have hplayers : (debut.world.region? ⟨1⟩).map (fun g => g.players.length) = some 1 := by cbv
  obtain ⟨g, hg, hlength⟩ := Option.map_eq_some_iff.mp hplayers
  obtain ⟨p, hp⟩ := List.exists_mem_of_length_pos (l := g.players) (by omega)
  obtain ⟨ms, hms⟩ :=
    (encodes_of_reaches Catalog.given_demo hreaches).1 ⟨1⟩ g hg p hp debut.world.config.range
  exact ⟨g, p, ms, hg, hp, hms⟩

end Server

end TileWorld
