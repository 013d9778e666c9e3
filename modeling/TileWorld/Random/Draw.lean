import TileWorld.Geometry.Area
import TileWorld.Random.Basic

/-!
# Bounded draws

Numbers below a bound, numbers between two ends, and points in an area or near a point. A draw
from a set of one or none takes nothing from the stream.
-/

namespace TileWorld

namespace RandomStream

/-- A number below `bound`, or zero when there is none. -/
def below (r : RandomStream) (bound : UInt32) : UInt32 × RandomStream :=
  if bound = 0 then (0, r)
  else
    let (bits, r) := r.next
    ((bits % bound.toUInt64).toUInt32, r)

/-- A number from `lo` to `hi`, both included. The numbers are counted modulo 2^32, so that the
full range of 32-bit integers counts as empty; an empty range gives `lo`. -/
def between (r : RandomStream) (lo hi : Int) : Int × RandomStream :=
  if hi ≤ lo then (lo, r)
  else
    let (k, r) := r.below (UInt32.ofNat (hi - lo + 1).toNat)
    (lo + k.toNat, r)

/-- A point in an area, or its corner along an axis on which the area is empty. A point past the
end of the coordinate space is moved back to its last coordinate. -/
def pointIn (r : RandomStream) (a : Area) : Point × RandomStream :=
  let (dx, r) := r.below a.w.toUInt32
  let (dy, r) := r.below a.h.toUInt32
  (⟨coordinate (a.x.toNat + dx.toNat), coordinate (a.y.toNat + dy.toNat)⟩, r)

/-- A point at most `radius` pixels from `c` on each axis, moved into the coordinate space. -/
def pointNear (r : RandomStream) (c : Point) (radius : UInt16) : Point × RandomStream :=
  let (dx, r) := r.between (-radius.toNat) radius.toNat
  let (dy, r) := r.between (-radius.toNat) radius.toNat
  (⟨coordinate (c.x.toNat + dx).toNat, coordinate (c.y.toNat + dy).toNat⟩, r)

end RandomStream

end TileWorld
