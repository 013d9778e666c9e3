import TileWorld.Proofs.Entity.Life
import TileWorld.Proofs.Random.Draws
import TileWorld.World.Command

/-!
# Monsters stay near home

A monster that walks by itself goes from one point near its home to another one. Since it goes straight
on each axis it is near its home on the way as well, and if it cannot go on, then it stops there. So a
tick keeps it on its leash (`Entity.OnLeash.live`), whatever the map looks like and whatever is drawn.
-/

namespace TileWorld

/-! ### Thoughts -/

/-- A monster with this mind is near its home and goes to a point near its home, and it will not stand
idle for longer than any monster does. -/
structure Wanderer.Holds (mind : Wanderer) (position destination : Point) : Prop where
  radius : mind.radius = wanderRadius
  position : position.inRange mind.home wanderRadius = true
  destination : destination.inRange mind.home wanderRadius = true
  countdown : mind.countdown ≤ maxIdle

/-- After a thought a monster is on its way to where it was going, or to where it wants to go now. -/
theorem Wanderer.Holds.think {mind : Wanderer} {p q : Point} (h : mind.Holds p q) (r : RandomStream) :
    (mind.think p q r).2.1.Holds p ((mind.think p q r).1.getD q) := by
  rw [Wanderer.think]
  by_cases hwalks : p ≠ q
  · rwa [if_pos hwalks]
  rw [if_neg hwalks]
  by_cases hidle : mind.countdown > 0
  · rw [if_pos hidle]
    exact { h with countdown := Nat.le_trans (Nat.sub_le ..) h.countdown }
  rw [if_neg hidle]
  have hcountdown : (r.between minIdle maxIdle).1.toNat ≤ maxIdle :=
    Int.toNat_le.mpr (r.between_mem (by decide) (by decide)).2
  have htarget := (r.between minIdle maxIdle).2.inRange_pointNear mind.home mind.radius
  rw [h.radius] at htarget
  refine ⟨h.radius, h.position, ?_, hcountdown⟩
  dsimp only
  split
  · exact h.destination
  · rwa [h.radius]

/-- A thought moves nobody's home. -/
theorem Wanderer.home_think (mind : Wanderer) (p q : Point) (r : RandomStream) :
    (mind.think p q r).2.1.home = mind.home := by
  rw [Wanderer.think]
  split
  · rfl
  · split <;> rfl

/-! ### The life of a monster -/

namespace Entity

/-- If the entity is a monster, then it is on its leash, and its sort and its home are as `R` has it. -/
def OnLeash (R : UInt16 → Point → Prop) (e : Entity) : Prop :=
  ∀ sort mind, e.kind = .monster sort mind →
    R sort mind.home ∧ mind.Holds e.position e.destination

variable {R : UInt16 → Point → Prop} {e : Entity}

theorem monster?_eq_some_iff {sort : UInt16} {mind : Wanderer} :
    e.monster? = some (sort, mind) ↔ e.kind = .monster sort mind := by
  rw [monster?]
  cases e.kind <;> simp

theorem onLeash_of_sort?_eq_none (h : e.sort? = none) : e.OnLeash R := fun sort mind hkind => by
  rw [sort?, monster?_eq_some_iff.mpr hkind] at h
  cases h

/-- It does not matter what else becomes of an entity. -/
theorem OnLeash.congr (h : e.OnLeash R) {e' : Entity} (hkind : e'.kind = e.kind)
    (hposition : e'.position = e.position) (hdestination : e'.destination = e.destination) :
    e'.OnLeash R := by
  rwa [OnLeash, hkind, hposition, hdestination]

theorem OnLeash.raise (h : e.OnLeash R) (c : Changes) : (e.raise c).OnLeash R := h.congr rfl rfl rfl

theorem OnLeash.clearChanges (h : e.OnLeash R) : e.clearChanges.OnLeash R := h.congr rfl rfl rfl

/-- A new monster is at home. -/
theorem onLeash_monster {sort : UInt16} {p : Point} (h : R sort p) (id : EntityId) (map : MapId) :
    (monster id sort map p).OnLeash R := by
  rintro _ _ hkind
  cases hkind
  exact ⟨h, rfl, Point.inRange_self .., Point.inRange_self .., Nat.zero_le _⟩

theorem IsNew.onLeash (h : e.IsNew) (hR : ∀ sort p, e = .monster e.id sort e.map p → R sort p) :
    e.OnLeash R := by
  cases h with
  | monster id sort map p => exact onLeash_monster (hR sort p rfl) id map
  | player | npc | item => exact onLeash_of_sort?_eq_none rfl

/-- A monster that makes up its mind stays on its leash. -/
theorem OnLeash.think (h : e.OnLeash R) (r : RandomStream) : (think r e).1.OnLeash R := by
  rw [Entity.think]
  cases hkind : e.kind with
  | monster sort mind =>
    obtain ⟨hhome, hmind⟩ := h sort mind hkind
    have hhome : R sort (mind.think e.position e.destination r).2.1.home := by
      rwa [Wanderer.home_think]
    have hmind := hmind.think r
    rintro _ _ hkind'
    rcases htarget : (mind.think e.position e.destination r).1 with _ | p <;>
      rw [htarget] at hmind <;> simp only [htarget, Option.elim] at hkind' ⊢ <;> cases hkind' <;>
      exact ⟨hhome, hmind⟩
  | _ => exact h

/-- A monster that walks stays on its leash. -/
theorem OnLeash.step (h : e.OnLeash R) (t : Terrain) : (e.step t).OnLeash R := by
  obtain ⟨hs, -⟩ | ⟨-, -, -, ⟨-, hs⟩ | hs⟩ := step_cases t e <;> rw [hs]
  · exact h
  · intro sort mind hkind
    obtain ⟨hhome, hmind⟩ := h sort mind hkind
    exact ⟨hhome, { hmind with
      position := Point.inRange_stepToward hmind.position hmind.destination }⟩
  · intro sort mind hkind
    obtain ⟨hhome, hmind⟩ := h sort mind hkind
    exact ⟨hhome, { hmind with destination := hmind.position }⟩

/-- A monster that lives through a tick stays on its leash. -/
theorem OnLeash.live (h : e.OnLeash R) (t : Terrain) (r : RandomStream) : (e.live t r).OnLeash R :=
  ((h.congr rfl rfl rfl : e.freeze.OnLeash R).think r).step t

end Entity

end TileWorld
