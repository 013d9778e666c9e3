import TileWorld.Geometry.Area
import TileWorld.Table

/-!
# Terrain

The grid of a map: its size in tiles and the tiles on which nobody can stand. A tile is known by its
number in reading order, and different tiles of a grid have different numbers
(`Terrain.index?_inj`). A point is walkable when it lies on the map and its tile is not blocked.
-/

namespace TileWorld

open Std

/-! ### The grid -/

/-- The grid of a map. -/
structure Terrain where
  /-- Width in tiles. -/
  width : UInt16
  /-- Height in tiles. -/
  height : UInt16
  /-- The numbers of the tiles on which nobody can stand. -/
  blocked : OrderedSet Nat

namespace Terrain

/-- A grid without blocked tiles. -/
def clear (width height : UInt16) : Terrain := ⟨width, height, ∅⟩

instance : Inhabited Terrain := ⟨clear 0 0⟩

/-- Width in pixels. -/
def pixelWidth (t : Terrain) : Nat := t.width.toNat * tileSize.toNat

/-- Height in pixels. -/
def pixelHeight (t : Terrain) : Nat := t.height.toNat * tileSize.toNat

/-- A tile of the grid. -/
def hasTile (t : Terrain) (c : Tile) : Bool := c.col < t.width && c.row < t.height

/-- The number of a tile of the grid, counted row by row. -/
def index? (t : Terrain) (c : Tile) : Option Nat :=
  if t.hasTile c then some (c.row.toNat * t.width.toNat + c.col.toNat) else none

/-- The grid with one more blocked tile; tiles outside the grid are ignored. -/
def block (t : Terrain) (c : Tile) : Terrain :=
  match t.index? c with
  | some i => { t with blocked := t.blocked.insert i }
  | none => t

/-- The grid with all the given tiles blocked. -/
def blockAll (t : Terrain) (cs : List Tile) : Terrain := cs.foldl block t

/-- A point lies on the map. -/
def contains (t : Terrain) (p : Point) : Bool :=
  p.x.toNat < t.pixelWidth && p.y.toNat < t.pixelHeight

/-- A point lies on the map and on a tile that is not blocked. -/
def isWalkable (t : Terrain) (p : Point) : Bool :=
  match t.index? p.tile with
  | some i => !t.blocked.contains i
  | none => false

/-! ### Size and membership -/

/-- A point lies on the map exactly when its tile does. -/
theorem contains_eq_hasTile (t : Terrain) (p : Point) : t.contains p = t.hasTile p.tile := by
  have key (a w : UInt16) : a.toNat < w.toNat * tileSize.toNat ↔ a / tileSize < w := by
    rw [UInt16.lt_iff_toNat_lt, UInt16.toNat_div]
    simp only [tileSize]
    exact (Nat.div_lt_iff_lt_mul (by decide)).symm
  rw [Bool.eq_iff_iff]
  unfold contains hasTile pixelWidth pixelHeight Point.tile
  rw [Bool.and_eq_true, Bool.and_eq_true, decide_eq_true_iff, decide_eq_true_iff,
    decide_eq_true_iff, decide_eq_true_iff, key, key]

/-- Tiles are counted row by row, and those outside the map have no number. -/
theorem index?_eq_some_iff {t : Terrain} {c : Tile} {i : Nat} :
    t.index? c = some i ↔
      (c.col.toNat < t.width.toNat ∧ c.row.toNat < t.height.toNat) ∧
        c.row.toNat * t.width.toNat + c.col.toNat = i := by
  simp [index?, hasTile, UInt16.lt_iff_toNat_lt]

/-- The tiles of a grid are numbered from zero, and there are as many numbers as tiles. -/
theorem index?_lt {t : Terrain} {c : Tile} {i : Nat} (h : t.index? c = some i) :
    i < t.width.toNat * t.height.toNat := by
  obtain ⟨⟨hcol, hrow⟩, rfl⟩ := index?_eq_some_iff.mp h
  calc c.row.toNat * t.width.toNat + c.col.toNat
      < (c.row.toNat + 1) * t.width.toNat := by rw [Nat.succ_mul]; omega
    _ ≤ t.height.toNat * t.width.toNat := Nat.mul_le_mul_right _ hrow
    _ = t.width.toNat * t.height.toNat := Nat.mul_comm ..

/-- The number of a tile gives its row as a quotient and its column as a remainder. -/
theorem row_and_col_of_index? {t : Terrain} {c : Tile} {i : Nat} (h : t.index? c = some i) :
    c.row.toNat = i / t.width.toNat ∧ c.col.toNat = i % t.width.toNat := by
  obtain ⟨⟨hcol, -⟩, rfl⟩ := index?_eq_some_iff.mp h
  have hpos : 0 < t.width.toNat := Nat.zero_lt_of_lt hcol
  rw [Nat.add_comm, Nat.add_mul_div_right _ _ hpos, Nat.add_mul_mod_self_right,
    Nat.div_eq_of_lt hcol, Nat.mod_eq_of_lt hcol, Nat.zero_add]
  exact ⟨rfl, rfl⟩

/-- No two tiles of a grid have the same number. -/
theorem index?_inj {t : Terrain} {c c' : Tile} {i : Nat} (h : t.index? c = some i)
    (h' : t.index? c' = some i) : c = c' := by
  obtain ⟨hrow, hcol⟩ := row_and_col_of_index? h
  obtain ⟨hrow', hcol'⟩ := row_and_col_of_index? h'
  obtain ⟨col, row⟩ := c
  obtain ⟨col', row'⟩ := c'
  obtain rfl : row = row' := UInt16.toNat_inj.mp (hrow.trans hrow'.symm)
  obtain rfl : col = col' := UInt16.toNat_inj.mp (hcol.trans hcol'.symm)
  rfl

/-- One can stand on the tiles of the map that are not blocked. -/
theorem isWalkable_iff {t : Terrain} {p : Point} :
    t.isWalkable p = true ↔ ∃ i, t.index? p.tile = some i ∧ i ∉ t.blocked := by
  rw [isWalkable]
  rcases h : t.index? p.tile with _ | i <;> simp [← ExtTreeSet.contains_iff_mem]

/-- Walkable points lie on the map. -/
theorem contains_of_isWalkable {t : Terrain} {p : Point} (h : t.isWalkable p = true) :
    t.contains p = true := by
  obtain ⟨i, hi, -⟩ := isWalkable_iff.mp h
  rw [contains_eq_hasTile]
  exact (Option.ite_none_right_eq_some.mp hi).1

end Terrain

end TileWorld
