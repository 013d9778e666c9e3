import TileWorld.Table

/-!
# Identities

An entity has an identity of its own for life. On each map it also has a small public number, by
which clients know it there. Maps are numbered.
-/

namespace TileWorld

open Std

/-- The identity of an entity, unique in its world and kept across maps. -/
structure EntityId where
  /-- The number of the entity. -/
  val : UInt32
deriving DecidableEq, Inhabited

/-- The `n`-th identity that a world gives out. The first one is 1, and after 2^32 of them they come
round again. -/
def EntityId.nth (n : Nat) : EntityId := ⟨UInt32.ofNat n⟩

/-- The number by which clients of one map know an entity there. -/
structure PublicId where
  /-- The number on the wire. -/
  val : UInt16
deriving DecidableEq, Inhabited

/-- The number of a map. -/
structure MapId where
  /-- The number itself. -/
  val : UInt16
deriving DecidableEq, Inhabited

/-! ### Orders -/

instance : Ord EntityId := ordBy EntityId.val
instance : TransOrd EntityId := inferInstanceAs (TransCmp (compareOn EntityId.val))
instance : LawfulEqOrd EntityId := lawfulEqCmp_compareOn fun ⟨_⟩ ⟨_⟩ h => congrArg _ h

instance : Ord PublicId := ordBy PublicId.val
instance : TransOrd PublicId := inferInstanceAs (TransCmp (compareOn PublicId.val))
instance : LawfulEqOrd PublicId := lawfulEqCmp_compareOn fun ⟨_⟩ ⟨_⟩ h => congrArg _ h

instance : Ord MapId := ordBy MapId.val
instance : TransOrd MapId := inferInstanceAs (TransCmp (compareOn MapId.val))
instance : LawfulEqOrd MapId := lawfulEqCmp_compareOn fun ⟨_⟩ ⟨_⟩ h => congrArg _ h

/-! ### Texts -/

/-- An entity in running text: `#7`. -/
def EntityId.render (id : EntityId) : String := s!"#{id.val}"

/-- A map in running text: `map 7`. -/
def MapId.render (id : MapId) : String := s!"map {id.val}"

/-- The public number that stands for nobody. -/
def PublicId.nobody : PublicId := ⟨0xFFFF⟩

/-- The number that an optional public id has on the wire. -/
def PublicId.wire (id : Option PublicId) : UInt16 := (id.getD nobody).val

end TileWorld
