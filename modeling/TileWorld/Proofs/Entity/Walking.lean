import Mathlib.Algebra.Order.Floor.Div
import Mathlib.Logic.Function.Iterate
import Mathlib.Order.Nat
import TileWorld.Proofs.Entity.Life

/-!
# Walking comes to rest

An entity that walks goes the way that leads straight to its destination, on both axes at once, as long
as somebody can stand on the next point of the way. Where the way leads has a closed form
(`Point.hasMoved_way`), and so it is known after how many steps it ends (`Point.way_eq_iff`). By then
the entity is at rest: at its destination if somebody can stand on every point of the way, and if not,
just before the first point where nobody can (`Entity.comes_to_rest`). That the entity gives up its
destination when it cannot go on does no harm, since it stays at rest from then on.
-/

namespace TileWorld

/-! ### The way on one axis -/

/-- A coordinate lies between two others, both included. -/
def axisBetween (a c b : UInt16) : Prop := axisDistance a c + axisDistance c b = axisDistance a b

/-- A coordinate is `n` pixels away from `a` toward `b`, or at `b` if that is nearer. -/
def axisMoved (a c b : UInt16) (n : Nat) : Prop :=
  axisDistance a c = min n (axisDistance a b) ∧ axisBetween a c b

theorem axisMoved_self (a b : UInt16) : axisMoved a a b 0 := by
  simp [axisMoved, axisBetween]

/-- The way on an axis in one formula. Of the two differences, the one that points away from the
destination is zero. -/
theorem axisMoved_iff {a b c : UInt16} {n : Nat} : axisMoved a c b n ↔
    c.toNat = a.toNat + min n (b.toNat - a.toNat) - min n (a.toNat - b.toNat) := by
  simp only [axisMoved, axisBetween, axisDistance]
  rcases Nat.le_total a.toNat b.toNat with hle | hle
  · rw [Nat.sub_eq_zero_of_le hle, Nat.zero_add, Nat.min_zero, Nat.sub_zero]
    omega
  · rw [Nat.sub_eq_zero_of_le hle, Nat.add_zero, Nat.min_zero, Nat.add_zero]
    omega

/-- A step moves on by the speed. -/
theorem axisMoved.step {a b c speed : UInt16} {n : Nat} (h : axisMoved a c b n) :
    axisMoved a (axisStep c b speed) b (n + speed.toNat) := by
  rw [axisMoved_iff] at h ⊢
  rw [toNat_axisStep]
  rcases Nat.le_total a.toNat b.toNat with hle | hle
  · rw [Nat.sub_eq_zero_of_le hle, Nat.min_zero, Nat.sub_zero] at h ⊢
    omega
  · rw [Nat.sub_eq_zero_of_le hle, Nat.min_zero, Nat.add_zero] at h ⊢
    omega

/-- Whoever has moved on by `n` pixels is there if it was not further. -/
theorem axisMoved.eq_iff {a b c : UInt16} {n : Nat} (h : axisMoved a c b n) :
    c = b ↔ axisDistance a b ≤ n := by
  obtain ⟨hmoved, hbetween⟩ := h
  rw [← axisDistance_eq_zero]
  rw [axisBetween] at hbetween
  omega

/-! ### The way of a point -/

namespace Point

/-- A point lies between two others on both axes. -/
def IsBetween (p r q : Point) : Prop := axisBetween p.x r.x q.x ∧ axisBetween p.y r.y q.y

/-- On each axis a point is `n` pixels away from `p` toward `q`, or at `q` if that is nearer. -/
def HasMoved (p r q : Point) (n : Nat) : Prop := axisMoved p.x r.x q.x n ∧ axisMoved p.y r.y q.y n

/-- The points through which one goes from `p` to `q`, step by step, if nothing is in the way. -/
def way (p q : Point) (speed : UInt16) (k : Nat) : Point := (fun r => r.stepToward q speed)^[k] p

variable (p q : Point) (speed : UInt16)

@[simp] theorem way_zero : p.way q speed 0 = p := rfl

theorem way_succ (k : Nat) : p.way q speed (k + 1) = (p.way q speed k).stepToward q speed :=
  Function.iterate_succ_apply' ..

/-- A step leads on toward where one wants to go, and not past it. -/
theorem hasMoved_stepToward : p.HasMoved (p.stepToward q speed) q speed.toNat := by
  have key (a b : UInt16) : axisMoved a (axisStep a b speed) b speed.toNat := by
    simpa using (axisMoved_self a b).step
  exact ⟨key .., key ..⟩

/-- After `k` steps one has moved on by `k` times the speed. -/
theorem hasMoved_way (k : Nat) : p.HasMoved (p.way q speed k) q (k * speed.toNat) := by
  induction k with
  | zero =>
    rw [Nat.zero_mul]
    exact ⟨axisMoved_self .., axisMoved_self ..⟩
  | succ k ih =>
    rw [way_succ, Nat.succ_mul]
    exact ⟨ih.1.step, ih.2.step⟩

variable {p q speed}

/-- Whoever moves toward a point is between where it was and the point. -/
theorem HasMoved.isBetween {r : Point} {n : Nat} (h : p.HasMoved r q n) : p.IsBetween r q :=
  ⟨h.1.2, h.2.2⟩

theorem HasMoved.inRange {r : Point} {range : UInt16} (h : p.HasMoved r q range.toNat) :
    p.inRange r range = true := by
  rw [Point.inRange_iff, h.1.1, h.2.1]
  exact ⟨Nat.min_le_left .., Nat.min_le_left ..⟩

@[simp] theorem isBetween_self : p.IsBetween p q := by
  simp [IsBetween, axisBetween]

/-- The way ends after as many steps as it takes on the longer axis. -/
theorem way_eq_iff (hspeed : speed ≠ 0) {k : Nat} : p.way q speed k = q ↔
    max (axisDistance p.x q.x) (axisDistance p.y q.y) ⌈/⌉ speed.toNat ≤ k := by
  have hpos : 0 < speed.toNat := Nat.pos_of_ne_zero fun h => hspeed (UInt16.toNat_inj.mp h)
  obtain ⟨hx, hy⟩ := hasMoved_way p q speed k
  rw [ceilDiv_le_iff_le_mul hpos, Nat.mul_comm, max_le_iff, ← hx.eq_iff, ← hy.eq_iff]
  rcases p.way q speed k with ⟨rx, ry⟩
  rcases q with ⟨qx, qy⟩
  rw [mk.injEq]

end Point

/-- A step from `p` to `q` on the way to `d`: not further than the speed and not past `d`, and if it
leads anywhere, somebody can stand there. -/
structure Terrain.IsSafeStep (t : Terrain) (p q d : Point) (speed : UInt16) : Prop where
  inRange : p.inRange q speed = true
  isBetween : p.IsBetween q d
  isWalkable : q ≠ p → t.isWalkable q = true

/-! ### The steps of an entity -/

namespace Entity

/-- The entity after some steps. -/
def afterSteps (t : Terrain) (k : Nat) (e : Entity) : Entity := (step t)^[k] e

/-- The points through which the entity comes to its destination if nothing is in its way. -/
def way (e : Entity) (k : Nat) : Point := e.position.way e.destination e.speed k

/-- As many steps as the entity has to take on the longer axis. -/
def stepsLeft (e : Entity) : Nat :=
  max (axisDistance e.position.x e.destination.x) (axisDistance e.position.y e.destination.y)
    ⌈/⌉ e.speed.toNat

/-- The entity is on its way, and nobody can stand where its next step leads. -/
def IsBlocked (t : Terrain) (e : Entity) : Prop :=
  e.position ≠ e.destination ∧
    t.isWalkable (e.position.stepToward e.destination e.speed) = false

/-- The entity further along its way. -/
def onWay (e : Entity) (k : Nat) : Entity := { e with position := e.way k }

variable {t : Terrain} {e : Entity} {j k : Nat}

@[simp] theorem position_onWay : (e.onWay k).position = e.way k := rfl

@[simp] theorem afterSteps_zero : e.afterSteps t 0 = e := rfl

theorem afterSteps_succ : e.afterSteps t (k + 1) = (e.afterSteps t k).step t :=
  Function.iterate_succ_apply' ..

/-- Some steps after some others are as many steps together. -/
theorem afterSteps_add : e.afterSteps t (j + k) = (e.afterSteps t k).afterSteps t j :=
  Function.iterate_add_apply ..

theorem way_succ : e.way (k + 1) = (e.way k).stepToward e.destination e.speed := Point.way_succ ..

/-- The way is at its end after as many steps as are left. -/
theorem way_eq_destination_iff (hspeed : e.speed ≠ 0) :
    e.way k = e.destination ↔ e.stepsLeft ≤ k := Point.way_eq_iff hspeed

/-- Further along its way, an entity is blocked if nobody can stand where the next step leads. -/
theorem isBlocked_onWay_iff : (e.onWay k).IsBlocked t ↔
    e.way k ≠ e.destination ∧ t.isWalkable (e.way (k + 1)) = false := by
  rw [way_succ]
  rfl

/-- A step of an entity at rest leads nowhere. -/
theorem step_of_at_rest (h : e.position = e.destination) : e.step t = e := by
  simp [step, h]

/-- An entity that has come to rest stays where it is. -/
theorem afterSteps_of_at_rest (h : e.position = e.destination) (k : Nat) : e.afterSteps t k = e :=
  Function.iterate_fixed (step_of_at_rest h) k

/-- A step with nothing in the way is a step along the way, and at the destination it is none. -/
theorem step_of_not_isBlocked (hbeing : e.isBeing = true) (hspeed : e.speed ≠ 0)
    (h : ¬ e.IsBlocked t) :
    e.step t = { e with position := e.position.stepToward e.destination e.speed } := by
  by_cases hrest : e.position = e.destination
  · have hstay : e.position.stepToward e.destination e.speed = e.position := by
      rw [← hrest, Point.stepToward_self]
    rw [step_of_at_rest hrest, hstay]
  · have hw : t.isWalkable (e.position.stepToward e.destination e.speed) = true := by
      simpa [IsBlocked, hrest] using h
    simp [step, hbeing, hrest, hspeed, hw]

/-- An entity that cannot take its step gives up its destination. -/
theorem step_of_isBlocked (hbeing : e.isBeing = true) (hspeed : e.speed ≠ 0)
    (h : e.IsBlocked t) : e.step t = { e with destination := e.position } := by
  obtain ⟨hrest, hw⟩ := h
  simp [step, hbeing, hrest, hspeed, hw]

/-- Before the end of the way the next point is walkable if the step is not refused. -/
theorem isWalkable_way (hspeed : e.speed ≠ 0) (hk : k < e.stepsLeft)
    (h : ¬ (e.onWay k).IsBlocked t) : t.isWalkable (e.way (k + 1)) = true := by
  have hway : e.way k ≠ e.destination := fun heq => by
    have := (way_eq_destination_iff hspeed).mp heq
    omega
  simpa [isBlocked_onWay_iff, hway] using h

/-- A step that is not refused is safe. -/
theorem isSafeStep_way (hspeed : e.speed ≠ 0) (h : ¬ (e.onWay k).IsBlocked t) :
    t.IsSafeStep (e.way k) (e.way (k + 1)) e.destination e.speed := by
  have hmoved : (e.way k).HasMoved (e.way (k + 1)) e.destination e.speed.toNat := by
    rw [way_succ]
    exact Point.hasMoved_stepToward ..
  refine ⟨hmoved.inRange, hmoved.isBetween, fun hne => ?_⟩
  refine isWalkable_way hspeed (Nat.lt_of_not_le fun hend => hne ?_) h
  rw [← way_eq_destination_iff hspeed] at hend
  rw [way_succ, hend, Point.stepToward_self]

/-! ### The run of an entity -/

section Run

variable (hbeing : e.isBeing = true) (hspeed : e.speed ≠ 0)

include hbeing hspeed

/-- An entity whose steps were never refused is on its way. -/
theorem afterSteps_eq_onWay (h : ∀ j < k, ¬ (e.afterSteps t j).IsBlocked t) :
    e.afterSteps t k = e.onWay k := by
  induction k with
  | zero => rfl
  | succ k ih =>
    have hgoes : e.afterSteps t k = e.onWay k := ih fun j hj => h j (Nat.lt_succ_of_lt hj)
    have hk : ¬ (e.onWay k).IsBlocked t := hgoes ▸ h k (Nat.lt_succ_self k)
    rw [afterSteps_succ, hgoes, step_of_not_isBlocked (e := e.onWay k) hbeing hspeed hk, onWay,
      onWay, way_succ]

/-- Whether a step of the entity will be refused can be seen from the way. -/
theorem afterSteps_eq_onWay_of_way (h : ∀ j < k, ¬ (e.onWay j).IsBlocked t) :
    e.afterSteps t k = e.onWay k := by
  refine afterSteps_eq_onWay hbeing hspeed fun j => ?_
  induction j using Nat.strong_induction_on with
  | _ j ih =>
    intro hj
    rw [afterSteps_eq_onWay hbeing hspeed fun i hi => ih i hi (hi.trans hj)]
    exact h j hj

/-- Either the entity goes all its way, or it goes as far as it can and rests there. -/
theorem afterSteps_cases (t : Terrain) :
    (∀ k, ¬ (e.onWay k).IsBlocked t ∧ e.afterSteps t k = e.onWay k) ∨
      ∃ j, (e.onWay j).IsBlocked t ∧ (∀ k < j, ¬ (e.onWay k).IsBlocked t) ∧
        (∀ k ≤ j, e.afterSteps t k = e.onWay k) ∧
        ∀ k > j, e.afterSteps t k = { e with position := e.way j, destination := e.way j } := by
  classical
  by_cases hfree : ∀ k, ¬ (e.onWay k).IsBlocked t
  · exact .inl fun k => ⟨hfree k, afterSteps_eq_onWay_of_way hbeing hspeed fun j _ => hfree j⟩
  · have hex : ∃ j, (e.onWay j).IsBlocked t := by simpa using hfree
    have hfirst : ∀ k < Nat.find hex, ¬ (e.onWay k).IsBlocked t := fun k hk => Nat.find_min hex hk
    have hgoes : ∀ k ≤ Nat.find hex, e.afterSteps t k = e.onWay k := fun k hk =>
      afterSteps_eq_onWay_of_way hbeing hspeed fun j hj => hfirst j (hj.trans_le hk)
    refine .inr ⟨Nat.find hex, Nat.find_spec hex, hfirst, hgoes, fun k hk => ?_⟩
    obtain ⟨i, rfl⟩ := Nat.exists_eq_add_of_le' hk
    rw [afterSteps_add, afterSteps_succ, hgoes _ le_rfl,
      step_of_isBlocked (e := e.onWay _) hbeing hspeed (Nat.find_spec hex)]
    exact afterSteps_of_at_rest rfl i

/-- Every step is safe. -/
theorem isSafeStep_afterSteps (t : Terrain) (k : Nat) :
    t.IsSafeStep (e.afterSteps t k).position (e.afterSteps t (k + 1)).position e.destination
      e.speed := by
  obtain hfree | ⟨j, -, hfirst, hgoes, hrests⟩ := afterSteps_cases hbeing hspeed t
  · rw [(hfree k).2, (hfree (k + 1)).2]
    exact isSafeStep_way hspeed (hfree k).1
  · rcases Nat.lt_or_ge k j with hk | hk
    · rw [hgoes k hk.le, hgoes (k + 1) hk]
      exact isSafeStep_way hspeed (hfirst k hk)
    · have hstill : (e.afterSteps t k).position = e.way j := by
        rcases Nat.eq_or_lt_of_le hk with rfl | hk
        · rw [hgoes j le_rfl, position_onWay]
        · rw [hrests k hk]
      rw [hstill, hrests (k + 1) (Nat.lt_succ_of_le hk)]
      exact ⟨Point.inRange_self .., Point.isBetween_self, fun h => absurd rfl h⟩

/-- After as many steps as the longer axis takes the entity rests, and so where it rests is known. -/
theorem afterSteps_stepsLeft (t : Terrain) :
    (e.afterSteps t e.stepsLeft).position = (e.afterSteps t e.stepsLeft).destination ∧
      (((e.afterSteps t e.stepsLeft).position = e.destination ∧
          ∀ k < e.stepsLeft, t.isWalkable (e.way (k + 1)) = true) ∨
        ((e.afterSteps t e.stepsLeft).position ≠ e.destination ∧ ∃ j < e.stepsLeft,
          (∀ k < j, t.isWalkable (e.way (k + 1)) = true) ∧ t.isWalkable (e.way (j + 1)) = false ∧
            (e.afterSteps t e.stepsLeft).position = e.way j)) := by
  obtain hfree | ⟨j, hblocked, hfirst, -, hrests⟩ := afterSteps_cases hbeing hspeed t
  · have harrives : e.way e.stepsLeft = e.destination := (way_eq_destination_iff hspeed).mpr le_rfl
    rw [(hfree _).2, position_onWay]
    exact ⟨harrives, .inl ⟨harrives, fun k hk => isWalkable_way hspeed hk (hfree k).1⟩⟩
  · obtain ⟨hway, hwall⟩ := isBlocked_onWay_iff.mp hblocked
    have hj : j < e.stepsLeft := by
      rwa [Ne, way_eq_destination_iff hspeed, Nat.not_le] at hway
    rw [hrests _ hj]
    exact ⟨rfl, .inr ⟨hway, j, hj,
      fun k hk => isWalkable_way hspeed (hk.trans hj) (hfirst k hk), hwall, rfl⟩⟩

end Run

/-- Walking is safe, and it comes to rest. Each step is safe, and as long as none is refused they lead
along the way, as far as their number times the speed. After as many steps as the longer axis takes the
entity is at rest for good. It rests at its destination exactly if somebody can stand on every point of
the way, and otherwise on the last point before the first one where nobody can. -/
theorem comes_to_rest (t : Terrain) (e : Entity) (hbeing : e.isBeing = true) (hspeed : e.speed ≠ 0) :
    (∀ k, t.IsSafeStep (e.afterSteps t k).position (e.afterSteps t (k + 1)).position e.destination
      e.speed) ∧
    (∀ k, (∀ j < k, ¬ (e.afterSteps t j).IsBlocked t) →
      e.position.HasMoved (e.afterSteps t k).position e.destination (k * e.speed.toNat)) ∧
    (e.afterSteps t e.stepsLeft).position = (e.afterSteps t e.stepsLeft).destination ∧
    (∀ k ≥ e.stepsLeft, e.afterSteps t k = e.afterSteps t e.stepsLeft) ∧
    (∀ k, e.way k = e.destination ↔ e.stepsLeft ≤ k) ∧
    ((e.afterSteps t e.stepsLeft).position = e.destination ↔
      ∀ k < e.stepsLeft, t.isWalkable (e.way (k + 1)) = true) ∧
    ((e.afterSteps t e.stepsLeft).position ≠ e.destination → ∃ j < e.stepsLeft,
      (∀ k < j, t.isWalkable (e.way (k + 1)) = true) ∧ t.isWalkable (e.way (j + 1)) = false ∧
        (e.afterSteps t e.stepsLeft).position = e.way j) := by
  obtain ⟨hrest, hwhere⟩ := afterSteps_stepsLeft hbeing hspeed t
  refine ⟨isSafeStep_afterSteps hbeing hspeed t, fun k hfree => ?_, hrest, fun k hk => ?_,
    fun k => way_eq_destination_iff hspeed, ?_, fun hne => ?_⟩
  · rw [afterSteps_eq_onWay hbeing hspeed hfree]
    exact Point.hasMoved_way ..
  · obtain ⟨i, rfl⟩ := Nat.exists_eq_add_of_le' hk
    rw [afterSteps_add, afterSteps_of_at_rest hrest]
  · obtain ⟨harrives, hopen⟩ | ⟨hfails, j, hj, -, hwall, -⟩ := hwhere
    · exact iff_of_true harrives hopen
    · exact iff_of_false hfails fun hopen => Bool.false_ne_true (hwall.symm.trans (hopen j hj))
  · obtain ⟨harrives, -⟩ | ⟨-, hlast⟩ := hwhere
    · exact absurd harrives hne
    · exact hlast

/-- A player walks along a row of tiles toward a point behind a blocked one. The way takes thirteen
steps, the last of them a short one; the player takes three of them and stays in front of the tile. -/
theorem comes_to_rest_before_wall :
    let t := (Terrain.clear 10 10).block ⟨4, 3⟩
    let e := (player ⟨1⟩ { name := "Ann" } ⟨0⟩ ⟨100, 100⟩).walkTo ⟨200, 100⟩
    e.isBeing = true ∧ e.speed ≠ 0 ∧ e.stepsLeft = 13 ∧
      (e.afterSteps t 13).position = ⟨124, 100⟩ ∧
      (e.afterSteps t 13).position = (e.afterSteps t 13).destination ∧
      (∀ k ≥ 13, e.afterSteps t k = e.afterSteps t 13) ∧
      ∃ j < 13, (∀ k < j, t.isWalkable (e.way (k + 1)) = true) ∧
        t.isWalkable (e.way (j + 1)) = false ∧ (e.afterSteps t 13).position = e.way j := by
  intro t e
  have hbeing : e.isBeing = true := rfl
  have hspeed : e.speed ≠ 0 := by decide
  have hleft : e.stepsLeft = 13 := by decide
  have hplace : (e.afterSteps t 13).position = ⟨124, 100⟩ := by decide
  have hne : (e.afterSteps t 13).position ≠ e.destination := hplace ▸ by decide
  obtain ⟨-, -, hrest, hstays, -, -, hlast⟩ := comes_to_rest t e hbeing hspeed
  rw [hleft] at hrest hstays hlast
  exact ⟨hbeing, hspeed, hleft, hplace, hrest, hstays, hlast hne⟩

end Entity

end TileWorld
