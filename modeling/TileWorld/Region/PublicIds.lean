import TileWorld.Entity.Id

/-!
# Public ids

The pool from which a map hands out public ids. It always gives the lowest number that is free:
first the numbers that have come back, then those that were never out, up to a limit.
-/

namespace TileWorld

open Std

/-- A pool of public ids. -/
structure IdPool where
  /-- Numbers that were out and have come back. -/
  returned : OrderedSet PublicId := ∅
  /-- The first number that was never out. -/
  next : UInt16 := 0
  /-- Where the numbers end. -/
  limit : UInt16 := PublicId.nobody.val

namespace IdPool

instance : Inhabited IdPool := ⟨{}⟩

/-- Takes the lowest free number out of the pool, if there is one. -/
def take (p : IdPool) : Option (PublicId × IdPool) :=
  match p.returned.min? with
  | some id => some (id, { p with returned := p.returned.erase id })
  | none => if p.next < p.limit then some (⟨p.next⟩, { p with next := p.next + 1 }) else none

/-- Gives a number back. -/
def giveBack (p : IdPool) (id : PublicId) : IdPool := { p with returned := p.returned.insert id }

/-! ### Which numbers are free -/

/-- A number is free: it has come back, or it was never out. -/
def Free (p : IdPool) (id : PublicId) : Prop :=
  id ∈ p.returned ∨ p.next ≤ id.val ∧ id.val < p.limit

/-- Only numbers that were out have come back. -/
def WellFormed (p : IdPool) : Prop := ∀ id ∈ p.returned, id.val < p.next

theorem wellFormed_empty (limit : UInt16) : WellFormed { limit } := fun _ h =>
  absurd h ExtTreeSet.not_mem_empty

theorem free_giveBack {p : IdPool} {id k : PublicId} :
    (p.giveBack id).Free k ↔ k = id ∨ p.Free k := by
  simp only [Free, giveBack, OrderedSet.mem_insert, or_assoc]

/-- The lowest number that has come back. -/
theorem lowest_of_min? {p : IdPool} {id : PublicId} (h : p.returned.min? = some id) :
    id ∈ p.returned ∧ ∀ k ∈ p.returned, id.val ≤ k.val := by
  obtain ⟨hmem, hle⟩ := ExtTreeSet.min?_eq_some_iff_mem_and_forall.mp h
  refine ⟨hmem, fun k hk => ?_⟩
  exact Std.isLE_compare.mp (hle k hk)

/-- A pool gives nothing exactly when no number is free. -/
theorem take_eq_none_iff {p : IdPool} : p.take = none ↔ ∀ id, ¬ p.Free id := by
  unfold take
  split
  · rename_i id h
    simp only [reduceCtorEq, false_iff, Classical.not_forall, Classical.not_not]
    exact ⟨id, .inl (lowest_of_min? h).1⟩
  · rename_i h
    have hnone : ∀ id, id ∉ p.returned := fun id hid => by
      rw [ExtTreeSet.min?_eq_none_iff.mp h] at hid
      exact ExtTreeSet.not_mem_empty hid
    split
    · rename_i hlt
      simp only [reduceCtorEq, false_iff, Classical.not_forall, Classical.not_not]
      exact ⟨⟨p.next⟩, .inr ⟨UInt16.le_refl _, hlt⟩⟩
    · rename_i hlt
      simp only [true_iff, Free, hnone, false_or, not_and]
      exact fun id hle hlt' => hlt (UInt16.lt_of_le_of_lt hle hlt')

/-- What a pool gives is free, no free number is lower, and it is the only one that is not free
afterwards. -/
theorem free_of_take {p p' : IdPool} {id : PublicId} (hp : p.WellFormed)
    (h : p.take = some (id, p')) :
    p.Free id ∧ (∀ k, p.Free k → id.val ≤ k.val) ∧ ∀ k, p'.Free k ↔ k ≠ id ∧ p.Free k := by
  unfold take at h
  split at h
  · -- a number that had come back
    rename_i id' hmin
    cases h
    obtain ⟨hmem, hle⟩ := lowest_of_min? hmin
    have hlt := hp id hmem
    refine ⟨.inl hmem, ?_, fun k => ?_⟩
    · rintro k (hk | ⟨hk, _⟩)
      · exact hle k hk
      · exact UInt16.le_trans (UInt16.le_of_lt hlt) hk
    · simp only [Free, OrderedSet.mem_erase]
      constructor
      · rintro (⟨hne, hk⟩ | hk)
        · exact ⟨hne, .inl hk⟩
        · exact ⟨fun heq => absurd (heq ▸ hk.1) (UInt16.not_le.mpr hlt), .inr hk⟩
      · rintro ⟨hne, hk | hk⟩
        · exact .inl ⟨hne, hk⟩
        · exact .inr hk
  · -- the first number that was never out
    rename_i hmin
    have hnone : ∀ k, k ∉ p.returned := fun k hk => by
      rw [ExtTreeSet.min?_eq_none_iff.mp hmin] at hk
      exact ExtTreeSet.not_mem_empty hk
    split at h
    · rename_i hlt
      cases h
      refine ⟨.inr ⟨UInt16.le_refl _, hlt⟩, ?_, fun k => ?_⟩
      · rintro k (hk | ⟨hk, _⟩)
        · exact absurd hk (hnone k)
        · exact hk
      · have hnext : (p.next + 1).toNat = p.next.toNat + 1 := by
          have := UInt16.lt_iff_toNat_lt.mp hlt
          have := p.limit.toNat_lt
          rw [UInt16.toNat_add]
          simp
          omega
        have hne : k ≠ ⟨p.next⟩ ↔ k.val.toNat ≠ p.next.toNat := by
          rw [ne_eq, ne_eq, UInt16.toNat_inj]
          cases k
          simp
        simp only [Free, hnone, false_or, hne, UInt16.le_iff_toNat_le, UInt16.lt_iff_toNat_lt,
          hnext]
        omega
    · cases h

/-- A pool stays in order when a public id is taken. -/
theorem WellFormed.take {p p' : IdPool} {id : PublicId} (hp : p.WellFormed)
    (h : p.take = some (id, p')) : p'.WellFormed := by
  unfold IdPool.take at h
  split at h
  · cases h
    exact fun k hk => hp k (OrderedSet.mem_erase.mp hk).2
  · split at h
    · rename_i hlt
      cases h
      intro k hk
      have hk' := UInt16.lt_iff_toNat_lt.mp (hp k hk)
      have := UInt16.lt_iff_toNat_lt.mp hlt
      have := p.limit.toNat_lt
      rw [UInt16.lt_iff_toNat_lt, UInt16.toNat_add]
      simp
      omega
    · cases h

/-- A pool stays in order when a public id comes back that was given out. -/
theorem WellFormed.giveBack {p : IdPool} {id : PublicId} (hp : p.WellFormed) (h : id.val < p.next) :
    (p.giveBack id).WellFormed := by
  intro k hk
  rcases OrderedSet.mem_insert.mp hk with rfl | hk
  · exact h
  · exact hp k hk

end IdPool

end TileWorld
