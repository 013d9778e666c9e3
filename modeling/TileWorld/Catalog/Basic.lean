import TileWorld.Catalog.Document
import TileWorld.Wire.Field

/-!
# Catalogs

A catalog is an atlas that was read from a document. Of two entries for the same map or the same
character, the later one counts.
-/

namespace TileWorld

open Std

/-- Why a catalog could not be had. -/
inductive CatalogError where
  /-- The document could not be read as a text. -/
  | unreadable
  /-- The text is not a catalog document. -/
  | malformed
deriving DecidableEq, Inhabited

/-- Maps and characters, by number and by name. -/
structure Catalog where
  /-- The maps. -/
  maps : Table MapId MapEntry := ∅
  /-- The characters. -/
  characters : Table String CharacterRecord := ∅
deriving Inhabited

/-- The plan of a map: the gates work before the spawn areas. -/
def MapEntry.plan (m : MapEntry) : MapPlan where
  terrain := (Terrain.clear m.width m.height).blockAll m.blocked
  fixtures := m.gates.map Fixture.gate ++ m.spawns.map Fixture.spawn

namespace Catalog

/-- The catalog of a document. -/
def ofDocument (d : CatalogDocument) : Catalog where
  maps := d.maps.foldl (fun t m => t.insert m.id m) ∅
  characters := d.characters.foldl (fun t c => t.insert c.looks.name c) ∅

/-- The catalog that a text describes. -/
def parse (text : String) : Except CatalogError Catalog :=
  match Json.parse? text >>= CatalogDocument.ofJson? with
  | some d => .ok (ofDocument d)
  | none => .error .malformed

/-- The catalog that a file of these bytes describes. -/
def ofFile (bs : Bytes) : Except CatalogError Catalog :=
  match Field.ofUtf8? bs with
  | some text => parse text
  | none => .error .unreadable

/-- A catalog to start with: two maps side by side, with gates that lead from one to the other. -/
def demo : Catalog := .ofDocument {
  maps := [
    { id := ⟨1⟩, name := "Tulimshar", width := 100, height := 100
      gates := [{ area := ⟨0, 0, 32, 3200⟩, map := ⟨2⟩, target := ⟨3000, 1600⟩ }]
      spawns := [{ area := ⟨1280, 1280, 640, 640⟩, sort := 1002, capacity := 6, interval := 30 }] },
    { id := ⟨2⟩, name := "Desert Road", width := 100, height := 100
      gates := [{ area := ⟨3168, 0, 32, 3200⟩, map := ⟨1⟩, target := ⟨200, 1600⟩ }] }] }

/-- How many maps there are. -/
def size (c : Catalog) : Nat := c.maps.size

/-- What a catalog tells a world. -/
def atlas (c : Catalog) : Atlas where
  plan id := c.maps[id]?.map MapEntry.plan
  mapName id := c.maps[id]?.map MapEntry.name
  character name := c.characters[name]?

end Catalog

end TileWorld
