import TileWorld.Geometry.Point

/-!
# Rectangular areas

An area is given by its top-left corner and its size. The right and the bottom edge do not belong
to it, and an area may reach past the end of the coordinate space.
-/

namespace TileWorld

/-- A rectangle of pixels with its sides along the axes. -/
structure Area where
  /-- Left edge. -/
  x : UInt16
  /-- Top edge. -/
  y : UInt16
  /-- Width in pixels. -/
  w : UInt16
  /-- Height in pixels. -/
  h : UInt16
deriving DecidableEq, Inhabited

namespace Area

/-- A point lies in an area when each coordinate is at or after the near edge and before the far
edge. -/
def contains (r : Area) (p : Point) : Bool :=
  r.x ≤ p.x && r.y ≤ p.y &&
    p.x.toNat < r.x.toNat + r.w.toNat && p.y.toNat < r.y.toNat + r.h.toNat

/-- An area has its left and its upper edge, and not the other two. -/
theorem contains_iff {r : Area} {p : Point} :
    r.contains p = true ↔
      (r.x.toNat ≤ p.x.toNat ∧ p.x.toNat < r.x.toNat + r.w.toNat) ∧
        r.y.toNat ≤ p.y.toNat ∧ p.y.toNat < r.y.toNat + r.h.toNat := by
  simp only [contains, Bool.and_eq_true, decide_eq_true_eq, UInt16.le_iff_toNat_le]
  omega

end Area

end TileWorld
