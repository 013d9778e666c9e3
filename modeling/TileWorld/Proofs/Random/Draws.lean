import Mathlib.Algebra.Group.Int.Defs
import TileWorld.Random.Draw

/-!
# Draws stay in bounds

A number that is drawn lies below its bound or between its ends, a point that is drawn from an area
lies in the area, and a point that is drawn near another one lies near it. The ends of the coordinate
space do no harm: whatever would lie past them is moved back by so much that it stays where it may be.
-/

namespace TileWorld

/-- A coordinate that is moved, and held inside the coordinate space, gets no further than it is
moved. -/
theorem axisDistance_coordinate_le {a : UInt16} {d : Int} {n : Nat} (hlo : -n ≤ d) (hhi : d ≤ n) :
    axisDistance (coordinate (a.toNat + d).toNat) a ≤ n := by
  have ha : a.toNat < 65536 := a.toNat_lt
  simp only [axisDistance, toNat_coordinate]
  omega

namespace RandomStream

theorem below_lt (r : RandomStream) {bound : UInt32} (h : bound ≠ 0) :
    (r.below bound).1.toNat < bound.toNat := by
  have hpos : 0 < bound.toNat := Nat.pos_of_ne_zero fun h0 => h (UInt32.toNat_inj.mp h0)
  have hmod : r.next.1.toNat % bound.toNat < bound.toNat := Nat.mod_lt _ hpos
  have hbound : bound.toNat < 2 ^ 32 := bound.toNat_lt
  rw [below, if_neg h]
  show ((r.next.1 % bound.toUInt64).toUInt32).toNat < _
  rw [UInt64.toNat_toUInt32, UInt64.toNat_mod, UInt32.toNat_toUInt64, Nat.mod_eq_of_lt (by omega)]
  exact hmod

/-- A draw below the size of a side is shorter than the side. -/
theorem below_side_lt (r : RandomStream) {side : UInt16} (h : side ≠ 0) :
    (r.below side.toUInt32).1.toNat < side.toNat := by
  have hne : side.toUInt32 ≠ 0 := fun h0 => h <| UInt16.toNat_inj.mp <| by
    rw [← UInt16.toNat_toUInt32, h0]
    rfl
  have hlt := r.below_lt hne
  rwa [UInt16.toNat_toUInt32] at hlt

/-- How many numbers there are from `lo` to `hi`, as a bound of a draw. -/
def count (lo hi : Int) : UInt32 := UInt32.ofNat (hi - lo + 1).toNat

theorem toNat_count {lo hi : Int} (hle : lo ≤ hi) (hcount : hi - lo + 1 < 2 ^ 32) :
    ((count lo hi).toNat : Int) = hi - lo + 1 := by
  rw [count, UInt32.toNat_ofNat']
  omega

/-- A range of so few numbers that they can be counted has more of them than is drawn. -/
theorem below_count_lt (r : RandomStream) {lo hi : Int} (hle : lo ≤ hi)
    (hcount : hi - lo + 1 < 2 ^ 32) : ((r.below (count lo hi)).1.toNat : Int) < hi - lo + 1 := by
  have htoNat := toNat_count hle hcount
  have hne : count lo hi ≠ 0 := fun h0 => by
    rw [h0, UInt32.toNat_zero] at htoNat
    omega
  have hlt := r.below_lt hne
  omega

/-- A number is drawn by its distance from the lower end. -/
theorem between_of_lt (r : RandomStream) {lo hi : Int} (hlt : lo < hi) :
    r.between lo hi = (lo + (r.below (count lo hi)).1.toNat, (r.below (count lo hi)).2) := by
  rw [between, if_neg (Int.not_le.mpr hlt)]
  rfl

/-- A number that is drawn lies between the two ends, if there are so few numbers between them that
they can be counted. -/
theorem between_mem (r : RandomStream) {lo hi : Int} (hle : lo ≤ hi) (hcount : hi - lo + 1 < 2 ^ 32) :
    lo ≤ (r.between lo hi).1 ∧ (r.between lo hi).1 ≤ hi := by
  by_cases h : hi ≤ lo
  · rw [between, if_pos h]
    exact ⟨Int.le_refl lo, hle⟩
  · have hlt := r.below_count_lt hle hcount
    rw [between_of_lt r (Int.not_le.mp h)]
    dsimp only
    omega

/-- A point that is drawn near another one is at most so far away from it on each axis. -/
theorem inRange_pointNear (r : RandomStream) (c : Point) (radius : UInt16) :
    (r.pointNear c radius).1.inRange c radius = true := by
  have hradius : radius.toNat < 65536 := radius.toNat_lt
  have hle : -(radius.toNat : Int) ≤ radius.toNat := by omega
  have hcount : (radius.toNat : Int) - -radius.toNat + 1 < 2 ^ 32 := by omega
  obtain ⟨hxlo, hxhi⟩ := r.between_mem hle hcount
  obtain ⟨hylo, hyhi⟩ := (r.between (-radius.toNat) radius.toNat).2.between_mem hle hcount
  exact Point.inRange_iff.mpr ⟨axisDistance_coordinate_le hxlo hxhi, axisDistance_coordinate_le hylo hyhi⟩

/-- A point that is drawn from an area lies in it. If the area reaches past the end of the coordinate
space, then so would the point, and the last coordinate lies in the area as well. -/
theorem contains_pointIn (r : RandomStream) {a : Area} (hw : a.w ≠ 0) (hh : a.h ≠ 0) :
    a.contains (r.pointIn a).1 = true := by
  have hdx := r.below_side_lt hw
  have hdy := (r.below a.w.toUInt32).2.below_side_lt hh
  have hx : a.x.toNat < 65536 := a.x.toNat_lt
  have hy : a.y.toNat < 65536 := a.y.toNat_lt
  refine Area.contains_iff.mpr ?_
  simp only [pointIn, toNat_coordinate]
  omega

end RandomStream

end TileWorld
