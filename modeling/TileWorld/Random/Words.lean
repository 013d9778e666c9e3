import Mathlib.Algebra.Group.Int.Defs
import Mathlib.Algebra.Group.Nat.Defs
import TileWorld.Random.Draw

/-!
# Draws in machine words

The bounded draws of `TileWorld.Random.Draw` once more, with every number held in the word that a
machine holds it in: the ends of a range and what is added to a coordinate in signed words of 32 bits,
the count of a range in a signed word of 64, a bound in an unsigned one of 32. Words that are
added, subtracted or converted lose what does not fit. Here such a computation has no result as soon as
a word does not stand for the number that it should stand for.
-/

namespace TileWorld

/-- Words of a fixed width, each of which stands for a number. -/
class Word (α : Type) where
  /-- The number that a word stands for. -/
  value : α → Int

namespace Word

instance : Word UInt16 := ⟨fun w => w.toNat⟩

instance : Word UInt32 := ⟨fun w => w.toNat⟩

instance : Word UInt64 := ⟨fun w => w.toNat⟩

instance : Word Int32 := ⟨Int32.toInt⟩

instance : Word Int64 := ⟨Int64.toInt⟩

variable {α β : Type} [Word α] [Word β]

/-- The word that a machine comes to, if it stands for the number that it should stand for. -/
def exactly? (w : α) (n : Int) : Option α := if value w = n then some w else none

/-- The sum of two words. -/
def plus? [Add α] (a b : α) : Option α := exactly? (a + b) (value a + value b)

/-- The difference of two words. -/
def minus? [Sub α] (a b : α) : Option α := exactly? (a - b) (value a - value b)

/-- A word with the other sign. -/
def opposite? [Neg α] (a : α) : Option α := exactly? (-a) (-value a)

/-- A word converted to another width. -/
def convert? (f : α → β) (a : α) : Option β := exactly? (f a) (value a)

/-- A 16-bit word as a signed word of 32 bits, which has room for it. -/
def widen (w : UInt16) : Int32 := w.toUInt32.toInt32

/-- The lowest 16 bits of a signed word. -/
def narrow (n : Int32) : UInt16 := n.toUInt32.toUInt16

/-- The lowest 32 bits of a signed word, as an unsigned one. -/
def lowHalf (n : Int64) : UInt32 := n.toUInt64.toUInt32

/-- The sum of two coordinates, or the last coordinate if they have no sum. -/
def saturatingSum (a b : UInt16) : UInt16 := if a + b < a then 65535 else a + b

/-- The coordinate nearest to a signed word, before it is converted. -/
def clamp (n : Int32) : Int32 := if n < 0 then 0 else if 65535 < n then 65535 else n

end Word

namespace RandomStream

open Word

/-- A number below `bound`, or zero when there is none. -/
def below? (r : RandomStream) (bound : UInt32) : Option (UInt32 × RandomStream) :=
  if bound = 0 then some (0, r)
  else do
    let (bits, r) := r.next
    let k ← convert? UInt64.toUInt32 (bits % bound.toUInt64)
    return (k, r)

/-- A number from `lo` to `hi`, both included. -/
def between? (r : RandomStream) (lo hi : Int32) : Option (Int32 × RandomStream) :=
  if hi ≤ lo then some (lo, r)
  else do
    let distance ← minus? hi.toInt64 lo.toInt64
    let count ← plus? distance 1
    let bound ← convert? lowHalf count
    let (k, r) ← r.below? bound
    let n ← plus? lo (← convert? UInt32.toInt32 k)
    return (n, r)

/-- A point in an area, or its corner along an axis on which the area is empty. -/
def pointIn? (r : RandomStream) (a : Area) : Option (Point × RandomStream) := do
  let (dx, r) ← r.below? a.w.toUInt32
  let dx ← convert? UInt32.toUInt16 dx
  let (dy, r) ← r.below? a.h.toUInt32
  let dy ← convert? UInt32.toUInt16 dy
  return (⟨saturatingSum a.x dx, saturatingSum a.y dy⟩, r)

/-- A point at most `radius` pixels from `c` on each axis, moved into the coordinate space. -/
def pointNear? (r : RandomStream) (c : Point) (radius : UInt16) :
    Option (Point × RandomStream) := do
  let back ← opposite? (widen radius)
  let (dx, r) ← r.between? back (widen radius)
  let x ← plus? (widen c.x) dx
  let (dy, r) ← r.between? back (widen radius)
  let y ← plus? (widen c.y) dy
  return (⟨← convert? narrow (clamp x), ← convert? narrow (clamp y)⟩, r)

end RandomStream

namespace Word

/-! ### Words that lose nothing -/

variable {α β : Type} [Word α] [Word β]

theorem exactly?_of_eq {w : α} {n : Int} (h : value w = n) : exactly? w n = some w := if_pos h

theorem exactly?_of_ne {w : α} {n : Int} (h : value w ≠ n) : exactly? w n = none := if_neg h

/-- Two signed words have a sum if there is room for it. -/
theorem exists_plus? {a b : Int32} (hlo : -2 ^ 31 ≤ a.toInt + b.toInt)
    (hhi : a.toInt + b.toInt < 2 ^ 31) :
    ∃ c, plus? a b = some c ∧ c.toInt = a.toInt + b.toInt := by
  have hsum : (a + b).toInt = a.toInt + b.toInt := by
    rw [Int32.toInt_add]
    exact Int.bmod_eq_of_le hlo hhi
  exact ⟨a + b, exactly?_of_eq hsum, hsum⟩

/-- There is always room to count the numbers from one 32-bit word to another. -/
theorem exists_count (lo hi : Int32) : ∃ distance count,
    minus? hi.toInt64 lo.toInt64 = some distance ∧ plus? distance 1 = some count ∧
      count.toInt = hi.toInt - lo.toInt + 1 := by
  have hlo := lo.le_toInt
  have hlo' := lo.toInt_lt
  have hhi := hi.le_toInt
  have hhi' := hi.toInt_lt
  have hdistance : (hi.toInt64 - lo.toInt64).toInt = hi.toInt - lo.toInt := by
    rw [Int64.toInt_sub, Int32.toInt_toInt64, Int32.toInt_toInt64]
    exact Int.bmod_eq_of_le (by omega) (by omega)
  have hcount : (hi.toInt64 - lo.toInt64 + 1).toInt = hi.toInt - lo.toInt + 1 := by
    rw [Int64.toInt_add, hdistance, Int64.toInt_one]
    exact Int.bmod_eq_of_le (by omega) (by omega)
  refine ⟨_, _, exactly?_of_eq ?_, exactly?_of_eq ?_, hcount⟩
  · simp only [value, Int32.toInt_toInt64, hdistance]
  · simp only [value, hcount, hdistance, Int64.toInt_one]

theorem toNat_lowHalf {n : Int64} (hlo : 0 ≤ n.toInt) (hhi : n.toInt < 2 ^ 32) :
    ((lowHalf n).toNat : Int) = n.toInt := by
  have hle : 0 ≤ n := Int64.le_iff_toInt_le.mpr hlo
  rw [Int64.toInt_eq_toNatClampNeg hle] at hhi ⊢
  rw [lowHalf, UInt64.toNat_toUInt32, Int64.toNat_toUInt64_of_le hle]
  omega

theorem toInt_toInt32 {w : UInt32} (h : w.toNat < 2 ^ 31) : w.toInt32.toInt = w.toNat := by
  have hofNat := Int32.toInt_ofNat_of_lt h
  rwa [← UInt32.toInt32_ofNat', UInt32.ofNat_toNat] at hofNat

theorem toInt_widen (w : UInt16) : (widen w).toInt = w.toNat := by
  have hlt := w.toNat_lt
  rw [widen, toInt_toInt32, UInt16.toNat_toUInt32]
  rw [UInt16.toNat_toUInt32]
  omega

theorem toNat_narrow {n : Int32} (hlo : 0 ≤ n.toInt) (hhi : n.toInt < 2 ^ 16) :
    ((narrow n).toNat : Int) = n.toInt := by
  have hle : 0 ≤ n := Int32.le_iff_toInt_le.mpr hlo
  rw [Int32.toInt_eq_toNatClampNeg hle] at hhi ⊢
  rw [narrow, UInt32.toNat_toUInt16, Int32.toNat_toUInt32_of_le hle]
  omega

/-- A clamped word is the nearest coordinate. -/
theorem toInt_clamp (n : Int32) : (clamp n).toInt = max 0 (min n.toInt 65535) := by
  have hzero : (0 : Int32).toInt = 0 := rfl
  have hlast : (65535 : Int32).toInt = 65535 := rfl
  simp only [clamp, Int32.lt_iff_toInt_lt, hzero, hlast]
  split
  · omega
  · split <;> omega

/-- What a signed word is clamped to is a coordinate. -/
theorem convert?_clamp (n : Int32) :
    convert? narrow (clamp n) = some (coordinate n.toInt.toNat) := by
  have hclamp := toInt_clamp n
  have hnarrow := toNat_narrow (n := clamp n) (by omega) (by omega)
  have heq : narrow (clamp n) = coordinate n.toInt.toNat := by
    rw [← UInt16.toNat_inj, toNat_coordinate]
    omega
  rw [convert?, exactly?_of_eq hnarrow, heq]

theorem saturatingSum_eq (a b : UInt16) : saturatingSum a b = coordinate (a.toNat + b.toNat) := by
  have ha := a.toNat_lt
  have hb := b.toNat_lt
  have hlast : (65535 : UInt16).toNat = 65535 := rfl
  rw [← UInt16.toNat_inj, toNat_coordinate, saturatingSum]
  simp only [UInt16.lt_iff_toNat_lt, UInt16.toNat_add]
  split <;> simp only [hlast, UInt16.toNat_add] <;> omega

end Word

end TileWorld
