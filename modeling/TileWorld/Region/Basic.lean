import TileWorld.Entity.Basic
import TileWorld.Region.PublicIds
import TileWorld.Region.Zones
import TileWorld.Terrain.Fixture

/-!
# Regions

A region is a map in use: the entities on it, the public ids that they have there, the index of
zones through which they are found, what is built into the map, and the map's own random stream.
-/

namespace TileWorld

open Std

/-- Why an entity could not be put on a map. -/
inductive InsertError where
  /-- The entity is on a map already. -/
  | duplicate (entity : EntityId)
  /-- The entity stands outside the map. -/
  | outside (entity : EntityId) (position : Point) (map : MapId)
  /-- The map has no public id left. -/
  | noPublicId (entity : EntityId) (map : MapId)
deriving DecidableEq, Inhabited

/-- The wording of a failed insertion. -/
def InsertError.message : InsertError → String
  | duplicate entity => s!"entity {entity.render} is already inserted"
  | outside entity position map =>
    s!"insertion of entity {entity.render} rejected: " ++
      s!"position {position.render} outside {map.render}"
  | noPublicId entity map =>
    s!"insertion of entity {entity.render} rejected: no free public id on {map.render}"

/-- A map in use. -/
structure Region where
  /-- The number of the map. -/
  id : MapId
  /-- The grid. -/
  terrain : Terrain
  /-- What is built into the map. -/
  fixtures : List Fixture
  /-- The random stream of the map. -/
  random : RandomStream
  /-- The entities on the map. -/
  members : Table EntityId Entity := ∅
  /-- The public ids of the map. -/
  publicIds : IdPool := {}
  /-- The index of zones. -/
  index : ZoneIndex := .ofTerrain terrain
deriving Inhabited

namespace Region

/-- The region of a map on which nobody is yet. -/
def empty (id : MapId) (terrain : Terrain) (fixtures : List Fixture) (random : RandomStream) :
    Region :=
  { id, terrain, fixtures, random }

/-- How many entities there are. -/
def size (g : Region) : Nat := g.members.size

/-- The entity is here. -/
def contains (g : Region) (id : EntityId) : Bool := g.members.contains id

/-- An entity that is here. -/
def find? (g : Region) (id : EntityId) : Option Entity := g.members[id]?

/-- All entities, in ascending order of their identities. -/
def entities (g : Region) : List Entity := g.members.toList.map Prod.snd

/-- All players, in ascending order of their identities. -/
def players (g : Region) : List Entity := g.entities.filter Entity.isPlayer

/-- Changes an entity where it is. The index of zones is not told. -/
def modify (g : Region) (id : EntityId) (f : Entity → Entity) : Region :=
  { g with members := g.members.modify id f }

/-- Puts an entity on the map, under the lowest public id that is free. An entity with a public id
counts as being on a map already. -/
def insert (g : Region) (e : Entity) : Except InsertError (PublicId × Region) :=
  if e.publicId.isSome || g.contains e.id then .error (.duplicate e.id)
  else if !g.terrain.contains e.position then .error (.outside e.id e.position g.id)
  else
    match g.publicIds.take with
    | none => .error (.noPublicId e.id g.id)
    | some (publicId, publicIds) =>
      let zone := g.index.zoneOf e.position
      .ok (publicId, { g with
        members := g.members.insert e.id { e with publicId := some publicId }
        publicIds
        index := g.index.file e.id zone zone })

/-- Takes an entity off the map. Its public id becomes free, and it is given back without one. -/
def remove (g : Region) (id : EntityId) : Option (Entity × Region) :=
  match g.find? id with
  | none => none
  | some e =>
    some ({ e with publicId := none }, { g with
      members := g.members.erase id
      publicIds := e.publicId.elim g.publicIds g.publicIds.giveBack
      index := g.index.erase id })

/-! ### Who is here -/

theorem contains_eq_isSome (g : Region) (id : EntityId) : g.contains id = (g.find? id).isSome :=
  ExtTreeMap.contains_eq_isSome_getElem?

/-- When a map takes an entity, and what becomes of the region then. -/
theorem insert_eq_ok_iff {g g' : Region} {e : Entity} {x : PublicId} :
    g.insert e = .ok (x, g') ↔ e.publicId = none ∧ g.find? e.id = none ∧
      g.terrain.contains e.position = true ∧ ∃ publicIds, g.publicIds.take = some (x, publicIds) ∧
        g' = { g with
          members := g.members.insert e.id { e with publicId := some x }
          publicIds
          index := g.index.file e.id (g.index.zoneOf e.position) (g.index.zoneOf e.position) } := by
  unfold insert
  rw [contains_eq_isSome]
  cases e.publicId with
  | some y => simp
  | none =>
    cases g.find? e.id with
    | some e' => simp
    | none =>
      cases g.terrain.contains e.position with
      | false => simp
      | true =>
        rcases g.publicIds.take with _ | ⟨y, pool⟩
        · simp
        · simp only [Option.isSome_none, Bool.or_self, Bool.not_true, Bool.false_eq_true, if_false,
            Except.ok.injEq, Prod.mk.injEq, true_and, Option.some.injEq]
          constructor
          · rintro ⟨rfl, rfl⟩
            exact ⟨pool, ⟨rfl, rfl⟩, rfl⟩
          · rintro ⟨_, ⟨rfl, rfl⟩, rfl⟩
            exact ⟨rfl, rfl⟩

/-- Whoever comes is there with its public id, and everybody else as before. -/
theorem find?_insert {g g' : Region} {e : Entity} {x : PublicId} (h : g.insert e = .ok (x, g'))
    (id : EntityId) :
    g'.find? id = if id = e.id then some { e with publicId := some x } else g.find? id := by
  obtain ⟨_, _, _, _, _, rfl⟩ := insert_eq_ok_iff.mp h
  exact Table.getElem?_insert ..

/-- When an entity can be taken off a map, and what becomes of the region then. -/
theorem remove_eq_some_iff {g g' : Region} {id : EntityId} {e' : Entity} :
    g.remove id = some (e', g') ↔ ∃ e, g.find? id = some e ∧ e' = { e with publicId := none } ∧
      g' = { g with
        members := g.members.erase id
        publicIds := e.publicId.elim g.publicIds g.publicIds.giveBack
        index := g.index.erase id } := by
  unfold remove
  cases g.find? id <;> simp [eq_comm]

/-- Whoever leaves is not there any more, and everybody else is as before. -/
theorem find?_remove {g g' : Region} {id : EntityId} {e : Entity} (h : g.remove id = some (e, g'))
    (k : EntityId) : g'.find? k = if k = id then none else g.find? k := by
  obtain ⟨_, _, _, rfl⟩ := remove_eq_some_iff.mp h
  exact Table.getElem?_erase ..

theorem find?_modify (g : Region) (id k : EntityId) (f : Entity → Entity) :
    (g.modify id f).find? k = if k = id then (g.find? k).map f else g.find? k :=
  Table.getElem?_modify ..

/-- The entities of a region are those that can be found. -/
theorem mem_entities_iff {g : Region} {e : Entity} :
    e ∈ g.entities ↔ ∃ id, g.find? id = some e := by
  simp only [entities, List.mem_map, Prod.exists, exists_eq_right,
    ExtTreeMap.mem_toList_iff_getElem?_eq_some]
  rfl

end Region

end TileWorld
