/-!
# Changes

What happened to an entity since its flags were last cleared: it came onto the map, it got a new
destination, it attacked. A set of changes has a byte of its own, one bit for each change.
-/

namespace TileWorld

/-- A set of changes. -/
structure Changes where
  /-- The entity came onto the map. -/
  newOnMap : Bool := false
  /-- The entity got a new destination. -/
  newDestination : Bool := false
  /-- The entity attacked. -/
  attack : Bool := false
deriving DecidableEq, Inhabited

namespace Changes

/-- No change. -/
def empty : Changes := {}

/-- The changes of either set. -/
def union (a b : Changes) : Changes :=
  ⟨a.newOnMap || b.newOnMap, a.newDestination || b.newDestination, a.attack || b.attack⟩

instance : Union Changes := ⟨union⟩

/-- Every change of `b` is in `a`. -/
def contains (a b : Changes) : Bool :=
  (!b.newOnMap || a.newOnMap) && (!b.newDestination || a.newDestination) && (!b.attack || a.attack)

/-- Some change is in both sets. -/
def intersects (a b : Changes) : Bool :=
  (a.newOnMap && b.newOnMap) || (a.newDestination && b.newDestination) || (a.attack && b.attack)

/-- Nothing changed. -/
def isEmpty (a : Changes) : Bool := !a.newOnMap && !a.newDestination && !a.attack

/-- The byte of a set of changes. -/
def bits (a : Changes) : Nat := a.newOnMap.toNat + 2 * a.newDestination.toNat + 4 * a.attack.toNat

/-- The set of changes that a byte stands for; higher bits mean nothing. -/
def ofBits (n : Nat) : Changes := ⟨n.testBit 0, n.testBit 1, n.testBit 2⟩

/-- The set in a debugging dump, by the names of its members. -/
def describe (a : Changes) : String :=
  let names := [(a.newOnMap, "NEW_ON_MAP"), (a.newDestination, "NEW_DESTINATION"),
    (a.attack, "ATTACK")].filterMap fun (present, name) => if present then some name else none
  "UpdateFlags(" ++ " | ".intercalate names ++ ")"

/-! ### Laws -/

@[simp] theorem ofBits_bits (a : Changes) : ofBits a.bits = a := by
  rcases a with ⟨_ | _, _ | _, _ | _⟩ <;> rfl

theorem contains_iff_union_eq {a b : Changes} : a.contains b = true ↔ a ∪ b = a := by
  rcases a with ⟨_ | _, _ | _, _ | _⟩ <;> rcases b with ⟨_ | _, _ | _, _ | _⟩ <;> decide

end Changes

end TileWorld
