/-!
# Points and tiles

Pixel coordinates on a tile map. A coordinate is a 16-bit word, so that it goes onto the wire as
it is. Closeness is decided by a box and not by a circle: two points are in range of each other
when neither axis is further apart than the range.

The lemmas say that being in range is symmetric and reflexive, and describe one walking step on
one axis by the distance it leaves.
-/

namespace TileWorld

/-- Width and height of one tile, in pixels. -/
def tileSize : UInt16 := 32

/-- Half-width of the area of interest, in tiles. -/
def interestTiles : UInt16 := 10

/-- Half-width of the area of interest, in pixels. -/
def interestRange : UInt16 := interestTiles * tileSize

/-- The coordinate nearest to a number: numbers past the end of the coordinate space are moved to
its last coordinate. -/
def coordinate (n : Nat) : UInt16 := UInt16.ofNat (min n 65535)

/-- How far two coordinates are apart. -/
def axisDistance (a b : UInt16) : Nat := (a.toNat - b.toNat) + (b.toNat - a.toNat)

/-- The coordinate reached from `a` by walking toward `b`, at most `speed` pixels and never past
`b`. Of the two differences, the one that points away from `b` is zero. -/
def axisStep (a b speed : UInt16) : UInt16 :=
  UInt16.ofNat (a.toNat + min (b.toNat - a.toNat) speed.toNat - min (a.toNat - b.toNat) speed.toNat)

/-- A cell of a map's grid. -/
structure Tile where
  /-- Column, counted from the left edge. -/
  col : UInt16
  /-- Row, counted from the top edge. -/
  row : UInt16
deriving DecidableEq, Inhabited

/-- A position on a map, in pixels. -/
structure Point where
  /-- Horizontal coordinate. -/
  x : UInt16
  /-- Vertical coordinate. -/
  y : UInt16
deriving DecidableEq, Inhabited

namespace Point

/-- The top-left corner of every map. -/
def origin : Point := ⟨0, 0⟩

/-- The top-left corner of a tile, held inside the coordinate space. -/
def ofTile (t : Tile) : Point :=
  ⟨coordinate (t.col.toNat * tileSize.toNat), coordinate (t.row.toNat * tileSize.toNat)⟩

/-- The tile that contains a point. -/
def tile (p : Point) : Tile := ⟨p.x / tileSize, p.y / tileSize⟩

/-- Two points are in range when they lie in each other's box of half-width `range`. -/
def inRange (p q : Point) (range : UInt16) : Bool :=
  axisDistance p.x q.x ≤ range.toNat && axisDistance p.y q.y ≤ range.toNat

/-- One step from `p` toward `q`, taken on both axes at once. -/
def stepToward (p q : Point) (speed : UInt16) : Point :=
  ⟨axisStep p.x q.x speed, axisStep p.y q.y speed⟩

/-- A point in running text: `(3, 4)`. -/
def render (p : Point) : String := s!"({p.x}, {p.y})"

/-- A point in a debugging dump: `Point(3, 4)`. -/
def describe (p : Point) : String := s!"Point({p.x}, {p.y})"

end Point

/-! ### Distances -/

/-- Coordinates stop at the edge of the plane. -/
theorem toNat_coordinate (n : Nat) : (coordinate n).toNat = min n 65535 := by
  rw [coordinate, UInt16.toNat_ofNat']
  omega

theorem axisDistance_comm (a b : UInt16) : axisDistance a b = axisDistance b a := by
  simp only [axisDistance]; omega

@[simp] theorem axisDistance_self (a : UInt16) : axisDistance a a = 0 := by
  simp [axisDistance]

theorem axisDistance_eq_zero {a b : UInt16} : axisDistance a b = 0 ↔ a = b := by
  rw [← UInt16.toNat_inj]
  simp only [axisDistance]; omega

/-- A step on an axis goes toward the other coordinate and not past it. -/
theorem toNat_axisStep (a b speed : UInt16) :
    (axisStep a b speed).toNat =
      a.toNat + min (b.toNat - a.toNat) speed.toNat - min (a.toNat - b.toNat) speed.toNat := by
  have ha := a.toNat_lt
  have hb := b.toNat_lt
  rw [axisStep, UInt16.toNat_ofNat']
  omega

/-- Walking keeps to the way: a step shortens the distance by the speed, or to nothing. -/
theorem axisDistance_axisStep (a b speed : UInt16) :
    axisDistance (axisStep a b speed) b = axisDistance a b - speed.toNat := by
  simp only [axisDistance, toNat_axisStep]
  omega

/-- Between two coordinates that are near a third one, all the way is near it. -/
theorem axisDistance_axisStep_le {a b c speed : UInt16} {n : Nat} (ha : axisDistance a c ≤ n)
    (hb : axisDistance b c ≤ n) : axisDistance (axisStep a b speed) c ≤ n := by
  simp only [axisDistance, toNat_axisStep] at ha hb ⊢
  omega

namespace Point

/-- In range is a box: near enough on both axes. -/
theorem inRange_iff {p q : Point} {range : UInt16} : p.inRange q range = true ↔
    axisDistance p.x q.x ≤ range.toNat ∧ axisDistance p.y q.y ≤ range.toNat := by
  rw [inRange, Bool.and_eq_true, decide_eq_true_iff, decide_eq_true_iff]

/-- Two points are in range of each other or neither is. -/
theorem inRange_comm (p q : Point) (range : UInt16) : p.inRange q range = q.inRange p range := by
  simp only [inRange, axisDistance_comm p.x, axisDistance_comm p.y]

@[simp] theorem inRange_self (p : Point) (range : UInt16) : p.inRange p range = true := by
  simp [inRange]

@[simp] theorem stepToward_self (p : Point) (speed : UInt16) : p.stepToward p speed = p := by
  have key (a : UInt16) : axisStep a a speed = a := by
    apply axisDistance_eq_zero.mp
    rw [axisDistance_axisStep, axisDistance_self, Nat.zero_sub]
  simp [stepToward, key]

/-- Whoever walks from one point near home to another one stays near home. -/
theorem inRange_stepToward {p q c : Point} {speed range : UInt16} (hp : p.inRange c range = true)
    (hq : q.inRange c range = true) : (p.stepToward q speed).inRange c range = true := by
  rw [inRange_iff] at hp hq ⊢
  exact ⟨axisDistance_axisStep_le hp.1 hq.1, axisDistance_axisStep_le hp.2 hq.2⟩

end Point

end TileWorld
