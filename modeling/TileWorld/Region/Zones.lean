import TileWorld.Entity.Id
import TileWorld.Terrain.Basic

/-!
# Zones

A map is cut into square zones, and an index says which entities are filed in which zone. Each
entity is filed in two zones, which may be one: the zone where it was when the tick began and the
zone where it is. To find whoever is near a box it is enough to look into the zones that the box
touches.

The two tables of an index agree (`Coherent`), filing and taking out keep it so, and looking into
a rectangle of zones finds all that is filed there (`mem_entitiesIn`).
-/

namespace TileWorld

open Std

/-- Side of a zone, in pixels. -/
def zoneSize : Nat := 256

/-- A square of a map, by its place in the grid of zones. -/
structure Zone where
  /-- Column, counted from the left edge. -/
  col : Nat
  /-- Row, counted from the top edge. -/
  row : Nat
deriving DecidableEq, Inhabited

instance : Ord Zone := ⟨compareLex (compareOn Zone.row) (compareOn Zone.col)⟩

instance : TransOrd Zone :=
  inferInstanceAs (TransCmp (compareLex (compareOn Zone.row) (compareOn Zone.col)))

instance : LawfulEqOrd Zone where
  compare_self := ReflOrd.compare_self
  eq_of_compare {a b} h := by
    have h' := compareLex_eq_eq.mp h
    have hr : a.row = b.row := Std.compare_eq_iff_eq.mp h'.1
    have hc : a.col = b.col := Std.compare_eq_iff_eq.mp h'.2
    cases a; cases b; simp_all

/-- A rectangle of zones, all four edges included. -/
structure ZoneBox where
  /-- First column. -/
  left : Nat
  /-- Last column. -/
  right : Nat
  /-- First row. -/
  top : Nat
  /-- Last row. -/
  bottom : Nat
deriving DecidableEq, Inhabited

/-- A zone lies in a rectangle of zones. -/
def ZoneBox.contains (b : ZoneBox) (z : Zone) : Bool :=
  b.left ≤ z.col && z.col ≤ b.right && b.top ≤ z.row && z.row ≤ b.bottom

/-- Which entities are filed in which zones of a map. -/
structure ZoneIndex where
  /-- The last column of zones. -/
  lastCol : Nat
  /-- The last row of zones. -/
  lastRow : Nat
  /-- The two zones of each entity. -/
  filed : Table EntityId (Zone × Zone) := ∅
  /-- The entities of each zone; zones without entities do not appear. -/
  zones : Table Zone (OrderedSet EntityId) := ∅

namespace ZoneIndex

/-- The empty index of a map. Every map has at least one zone. -/
def ofTerrain (t : Terrain) : ZoneIndex where
  lastCol := (t.pixelWidth + zoneSize - 1) / zoneSize - 1
  lastRow := (t.pixelHeight + zoneSize - 1) / zoneSize - 1

instance : Inhabited ZoneIndex := ⟨ofTerrain default⟩

/-- The zone of a point. Points past the edge of the map belong to the zones along the edge. -/
def zoneOf (x : ZoneIndex) (p : Point) : Zone :=
  ⟨min (p.x.toNat / zoneSize) x.lastCol, min (p.y.toNat / zoneSize) x.lastRow⟩

/-- The zones that touch the box around `a` and `b` grown by `range`. -/
def boxAround (x : ZoneIndex) (a b : Point) (range : UInt16) : ZoneBox where
  left := (min a.x.toNat b.x.toNat - range.toNat) / zoneSize
  right := min ((coordinate (max a.x.toNat b.x.toNat + range.toNat)).toNat / zoneSize) x.lastCol
  top := (min a.y.toNat b.y.toNat - range.toNat) / zoneSize
  bottom := min ((coordinate (max a.y.toNat b.y.toNat + range.toNat)).toNat / zoneSize) x.lastRow

/-- The entities filed in a zone. -/
def entitiesOf (x : ZoneIndex) (z : Zone) : OrderedSet EntityId := x.zones[z]?.getD ∅

/-- Adds an entity to a zone. -/
def addTo (zones : Table Zone (OrderedSet EntityId)) (z : Zone) (id : EntityId) :
    Table Zone (OrderedSet EntityId) :=
  zones.alter z fun ids => some ((ids.getD ∅).insert id)

/-- Takes an entity out of a zone. -/
def dropFrom (zones : Table Zone (OrderedSet EntityId)) (z : Zone) (id : EntityId) :
    Table Zone (OrderedSet EntityId) :=
  zones.alter z fun ids =>
    let ids := (ids.getD ∅).erase id
    -- an empty zone does not appear
    if ids.isEmpty then none else some ids

/-- Takes an entity out of the index. -/
def erase (x : ZoneIndex) (id : EntityId) : ZoneIndex :=
  match x.filed[id]? with
  | none => x
  | some (a, b) =>
    { x with filed := x.filed.erase id, zones := dropFrom (dropFrom x.zones a id) b id }

/-- Files an entity in two zones, and in no others. -/
def file (x : ZoneIndex) (id : EntityId) (a b : Zone) : ZoneIndex :=
  if x.filed[id]? = some (a, b) then x
  else
    let x := x.erase id
    { x with filed := x.filed.insert id (a, b), zones := addTo (addTo x.zones a id) b id }

/-- The entities filed in any zone of a rectangle, in ascending order. -/
def entitiesIn (x : ZoneIndex) (box : ZoneBox) : List EntityId :=
  let near := x.zones.toList.filter fun (z, _) => box.contains z
  (ExtTreeSet.ofList (near.flatMap fun (_, ids) => ids.toList) compare).toList

/-! ### Filing and finding -/

/-- The entities of a zone in a table of zones. -/
theorem getD_addTo (zones : Table Zone (OrderedSet EntityId)) (z z' : Zone) (id : EntityId) :
    (addTo zones z id)[z']?.getD ∅ =
      if z' = z then (zones[z']?.getD ∅).insert id else zones[z']?.getD ∅ := by
  rw [addTo, Table.getElem?_alter]
  split <;> simp_all

theorem getD_dropFrom (zones : Table Zone (OrderedSet EntityId)) (z z' : Zone) (id : EntityId) :
    (dropFrom zones z id)[z']?.getD ∅ =
      if z' = z then (zones[z']?.getD ∅).erase id else zones[z']?.getD ∅ := by
  rw [dropFrom, Table.getElem?_alter]
  by_cases hz : z' = z
  · simp only [hz, if_true]
    split
    · rename_i h
      exact (ExtTreeSet.isEmpty_iff.mp h).symm
    · rfl
  · simp only [hz, if_false]

/-- Every entity is found in the two zones in which it is filed, and nowhere else. -/
def Coherent (x : ZoneIndex) : Prop :=
  ∀ z id, id ∈ x.entitiesOf z ↔ ∃ a b, x.filed[id]? = some (a, b) ∧ (z = a ∨ z = b)

/-- An index of nobody agrees with itself. -/
theorem coherent_ofTerrain (t : Terrain) : (ofTerrain t).Coherent := by
  intro z id
  simp [entitiesOf, ofTerrain]

theorem filed_erase (x : ZoneIndex) (id k : EntityId) :
    (x.erase id).filed[k]? = if k = id then none else x.filed[k]? := by
  unfold erase
  split
  · split <;> simp_all
  · exact Table.getElem?_erase ..

theorem filed_file (x : ZoneIndex) (id k : EntityId) (a b : Zone) :
    (x.file id a b).filed[k]? = if k = id then some (a, b) else x.filed[k]? := by
  unfold file
  split
  · split <;> simp_all
  · rw [Table.getElem?_insert, filed_erase]
    split <;> rfl

/-- An entity taken out of the index is in no zone any more; all others stay where they are. -/
theorem Coherent.mem_erase {x : ZoneIndex} (hx : x.Coherent) {z : Zone} {id k : EntityId} :
    k ∈ (x.erase id).entitiesOf z ↔ k ≠ id ∧ k ∈ x.entitiesOf z := by
  unfold ZoneIndex.erase
  split
  · rename_i hnone
    refine ⟨fun hk => ⟨?_, hk⟩, And.right⟩
    rintro rfl
    obtain ⟨a, b, hab, _⟩ := (hx z k).mp hk
    rw [hnone] at hab
    cases hab
  · rename_i a b hab
    have hid : id ∈ x.entitiesOf z → z = a ∨ z = b := fun h => by
      obtain ⟨a', b', hab', hz⟩ := (hx z id).mp h
      rw [hab] at hab'
      cases hab'
      exact hz
    simp only [entitiesOf, getD_dropFrom] at hid ⊢
    by_cases hk : k = id
    · subst hk
      by_cases ha : z = a <;> by_cases hb : z = b <;> simp_all
    · have hk' : ¬ id = k := Ne.symm hk
      by_cases ha : z = a <;> by_cases hb : z = b <;> simp_all

/-- An index agrees with itself when somebody is struck out. -/
theorem Coherent.erase {x : ZoneIndex} (hx : x.Coherent) (id : EntityId) :
    (x.erase id).Coherent := by
  intro z k
  rw [hx.mem_erase, hx z k, filed_erase]
  by_cases hk : k = id <;> simp [hk]

/-- A filed entity is in its two zones and in no others; all others stay where they are. -/
theorem Coherent.mem_file {x : ZoneIndex} (hx : x.Coherent) {z a b : Zone} {id k : EntityId} :
    k ∈ (x.file id a b).entitiesOf z ↔
      if k = id then z = a ∨ z = b else k ∈ x.entitiesOf z := by
  unfold ZoneIndex.file
  split
  · rename_i hab
    split
    · rename_i hk
      subst hk
      rw [hx z k, hab]
      exact ⟨fun ⟨_, _, h, hz⟩ => by cases h; exact hz, fun hz => ⟨a, b, rfl, hz⟩⟩
    · rfl
  · have hmem : k ∈ (x.erase id).entitiesOf z ↔ k ≠ id ∧ k ∈ x.entitiesOf z := hx.mem_erase
    simp only [entitiesOf, getD_addTo] at hmem ⊢
    by_cases hk : k = id
    · subst hk
      by_cases ha : z = a <;> by_cases hb : z = b <;> simp_all
    · have hk' : ¬ id = k := Ne.symm hk
      by_cases ha : z = a <;> by_cases hb : z = b <;> simp_all

/-- An index agrees with itself when somebody is filed. -/
theorem Coherent.file {x : ZoneIndex} (hx : x.Coherent) (id : EntityId) (a b : Zone) :
    (x.file id a b).Coherent := by
  intro z k
  rw [hx.mem_file, filed_file]
  by_cases hk : k = id
  · simp only [hk, if_true]
    exact ⟨fun hz => ⟨a, b, rfl, hz⟩, fun ⟨_, _, h, hz⟩ => by cases h; exact hz⟩
  · simp only [hk, if_false, hx z k]

/-- Looking into the zones of a rectangle finds all that is filed in any of them. -/
theorem mem_entitiesIn {x : ZoneIndex} {box : ZoneBox} {id : EntityId} :
    id ∈ x.entitiesIn box ↔ ∃ z, box.contains z = true ∧ id ∈ x.entitiesOf z := by
  simp only [entitiesIn, ExtTreeSet.mem_toList, OrderedSet.mem_ofList, List.mem_flatMap,
    List.mem_filter, ExtTreeMap.mem_toList_iff_getElem?_eq_some, Prod.exists, entitiesOf]
  constructor
  · rintro ⟨z, ids, ⟨hz, hbox⟩, hid⟩
    exact ⟨z, hbox, by rw [hz]; exact hid⟩
  · rintro ⟨z, hbox, hid⟩
    cases hz : x.zones[z]? with
    | none =>
      rw [hz] at hid
      exact absurd hid ExtTreeSet.not_mem_empty
    | some ids =>
      rw [hz] at hid
      exact ⟨z, ids, ⟨hz, hbox⟩, hid⟩

/-- What is found comes in ascending order. -/
theorem pairwise_entitiesIn (x : ZoneIndex) (box : ZoneBox) :
    (x.entitiesIn box).Pairwise fun a b => compare a b = .lt :=
  ExtTreeSet.ordered_toList

end ZoneIndex

end TileWorld
