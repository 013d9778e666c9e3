import TileWorld.Atlas
import TileWorld.Json.Decode

/-!
# Catalog documents

A catalog is written as a JSON document that lists maps and characters. This module says how each
of them is written.
-/

namespace TileWorld

open Json

/-- A map as a catalog describes it. -/
structure MapEntry where
  /-- The number of the map. -/
  id : MapId
  /-- The name that players get to see. -/
  name : String
  /-- Width in tiles. -/
  width : UInt16
  /-- Height in tiles. -/
  height : UInt16
  /-- The tiles on which nobody can stand. -/
  blocked : List Tile := []
  /-- The gates. -/
  gates : List Gate := []
  /-- The spawn areas. -/
  spawns : List SpawnArea := []
deriving Inhabited

/-- A whole document. -/
structure CatalogDocument where
  /-- The maps. -/
  maps : List MapEntry := []
  /-- The characters. -/
  characters : List CharacterRecord := []
deriving Inhabited

/-- A number of a map. -/
def MapId.ofJson? (j : Json) : Option MapId := j.short?.map MapId.mk

/-- A tile, written as a pair of its column and its row. -/
def Tile.ofJson? (j : Json) : Option Tile := (j.pair? short?).map fun c => ⟨c.1, c.2⟩

/-- A point. -/
def Point.ofJson? (j : Json) : Option Point := do
  let fs ← j.fields? ["x", "y"]
  return ⟨← fs.get? "x" short?, ← fs.get? "y" short?⟩

/-- An area. -/
def Area.ofJson? (j : Json) : Option Area := do
  let fs ← j.fields? ["x", "y", "w", "h"]
  return ⟨← fs.get? "x" short?, ← fs.get? "y" short?, ← fs.get? "w" short?, ← fs.get? "h" short?⟩

/-- A gate; the point it leads to is given by its coordinates. -/
def Gate.ofJson? (j : Json) : Option Gate := do
  let fs ← j.fields? ["area", "map", "x", "y"]
  return {
    area := ← fs.get? "area" Area.ofJson?
    map := ← fs.get? "map" MapId.ofJson?
    target := ⟨← fs.get? "x" short?, ← fs.get? "y" short?⟩ }

/-- A spawn area. -/
def SpawnArea.ofJson? (j : Json) : Option SpawnArea := do
  let fs ← j.fields? ["area", "monster_class", "max_beings", "spawn_interval"]
  return {
    area := ← fs.get? "area" Area.ofJson?
    sort := ← fs.get? "monster_class" short?
    capacity := ← fs.get? "max_beings" (nat? 0xFFFF)
    interval := ← fs.get? "spawn_interval" (nat? 0xFFFFFFFF) }

/-- A map. -/
def MapEntry.ofJson? (j : Json) : Option MapEntry := do
  let fs ← j.fields? ["id", "name", "width", "height", "blocked", "warps", "spawns"]
  return {
    id := ← fs.get? "id" MapId.ofJson?
    name := ← fs.get? "name" text?
    width := ← fs.get? "width" short?
    height := ← fs.get? "height" short?
    blocked := ← fs.getD? "blocked" (list? Tile.ofJson?) []
    gates := ← fs.getD? "warps" (list? Gate.ofJson?) []
    spawns := ← fs.getD? "spawns" (list? SpawnArea.ofJson?) [] }

/-- A character. -/
def CharacterRecord.ofJson? (j : Json) : Option CharacterRecord := do
  let fs ← j.fields? ["name", "map", "position", "hair_style", "hair_color", "gender"]
  return {
    looks := {
      name := ← fs.get? "name" text?
      hairStyle := ← fs.getD? "hair_style" byte? 0
      hairColor := ← fs.getD? "hair_color" byte? 0
      gender := ← fs.getD? "gender" byte? 0 }
    map := ← fs.get? "map" MapId.ofJson?
    position := ← fs.get? "position" Point.ofJson? }

/-- A whole document. -/
def CatalogDocument.ofJson? (j : Json) : Option CatalogDocument := do
  let fs ← j.fields? ["maps", "characters"]
  return {
    maps := ← fs.getD? "maps" (list? MapEntry.ofJson?) []
    characters := ← fs.getD? "characters" (list? CharacterRecord.ofJson?) [] }

end TileWorld
