import TileWorld.Entity.Basic

/-!
# What a tick does to an entity

An entity goes through a tick in three passes: the place where it stands is noted, it thinks, and
it takes a step. `Entity.live` is the three of them together. Through all that it stays the same
entity to everybody else (`Entity.Persists`); it stays on its map (`contains_position_live`), and
a being that is still on its way when the tick is over has moved
(`oldPosition_ne_of_walking_live`).
-/

namespace TileWorld

/-! ### One step -/

/-- Somebody with a speed who is not there yet gets somewhere in a step. -/
theorem Point.stepToward_ne {p q : Point} {speed : UInt16} (hpq : p ≠ q) (hspeed : speed ≠ 0) :
    p.stepToward q speed ≠ p := by
  intro heq
  have hpos : 0 < speed.toNat := by
    have : speed.toNat ≠ 0 := fun h => hspeed (UInt16.toNat_inj.mp h)
    omega
  -- on each axis the distance gets shorter by the speed, and still is what it was
  have key (a b : UInt16) (h : axisStep a b speed = a) : a = b := by
    have hdist := axisDistance_axisStep a b speed
    rw [h] at hdist
    exact axisDistance_eq_zero.mp (by omega)
  obtain ⟨px, py⟩ := p
  obtain ⟨qx, qy⟩ := q
  simp only [stepToward, mk.injEq] at heq
  exact hpq (by rw [key px qx heq.1, key py qy heq.2])

namespace Entity

/-! ### Staying the same entity -/

/-- What everybody else knows an entity by is the same before and after. -/
structure Persists (e e' : Entity) : Prop where
  id : e'.id = e.id
  publicId : e'.publicId = e.publicId
  map : e'.map = e.map
  speed : e'.speed = e.speed
  looks : e'.looks? = e.looks?
  isBeing : e'.isBeing = e.isBeing

namespace Persists

variable {e e' e'' : Entity}

protected theorem refl (e : Entity) : e.Persists e := ⟨rfl, rfl, rfl, rfl, rfl, rfl⟩

protected theorem symm (h : e.Persists e') : e'.Persists e :=
  ⟨h.id.symm, h.publicId.symm, h.map.symm, h.speed.symm, h.looks.symm, h.isBeing.symm⟩

protected theorem trans (h : e.Persists e') (h' : e'.Persists e'') : e.Persists e'' :=
  ⟨h'.id.trans h.id, h'.publicId.trans h.publicId, h'.map.trans h.map, h'.speed.trans h.speed,
    h'.looks.trans h.looks, h'.isBeing.trans h.isBeing⟩

theorem isPlayer (h : e.Persists e') : e'.isPlayer = e.isPlayer := by
  rw [Entity.isPlayer, Entity.isPlayer, h.looks]

end Persists

theorem persists_freeze (e : Entity) : e.Persists e.freeze := ⟨rfl, rfl, rfl, rfl, rfl, rfl⟩

theorem persists_raise (e : Entity) (c : Changes) : e.Persists (e.raise c) :=
  ⟨rfl, rfl, rfl, rfl, rfl, rfl⟩

theorem persists_walkTo (e : Entity) (p : Point) : e.Persists (e.walkTo p) :=
  ⟨rfl, rfl, rfl, rfl, rfl, rfl⟩

theorem persists_clearChanges (e : Entity) : e.Persists e.clearChanges :=
  ⟨rfl, rfl, rfl, rfl, rfl, rfl⟩

/-- A thought changes a monster's mind, and perhaps it sets out for a new point. Everything else
stays as it is. -/
theorem think_cases (r : RandomStream) (e : Entity) :
    (think r e).1 = e ∨ ∃ sort mind mind', e.kind = .monster sort mind ∧
      ((think r e).1 = { e with kind := .monster sort mind' } ∨
        ∃ p, (think r e).1 = { e with kind := .monster sort mind' }.walkTo p) := by
  rw [think]
  cases hk : e.kind with
  | monster sort mind =>
    refine .inr ⟨sort, mind, (mind.think e.position e.destination r).2.1, rfl, ?_⟩
    rcases h : (mind.think e.position e.destination r).1 with _ | p
    · exact .inl (by simp [h])
    · exact .inr ⟨p, by simp [h]⟩
  | _ => exact .inl rfl

/-- Thinking changes only where an entity is going. -/
theorem persists_think (r : RandomStream) (e : Entity) : e.Persists (think r e).1 := by
  obtain h | ⟨sort, mind, mind', hk, h⟩ := think_cases r e
  · rw [h]
    exact .refl e
  · have hmind : e.Persists { e with kind := .monster sort mind' } :=
      ⟨rfl, rfl, rfl, rfl, by simp [looks?, hk], by simp [isBeing, hk]⟩
    obtain h | ⟨p, h⟩ := h
    · rwa [h]
    · rw [h]
      exact hmind.trans (persists_walkTo _ p)

/-- A step leads one step on, or nowhere: then the entity rests, or it stays where it is. -/
theorem step_cases (t : Terrain) (e : Entity) :
    (e.step t = e ∧ (e.isBeing = false ∨ e.position = e.destination ∨ e.speed = 0)) ∨
      (e.isBeing = true ∧ e.position ≠ e.destination ∧ e.speed ≠ 0 ∧
        (t.isWalkable (e.position.stepToward e.destination e.speed) = true ∧
            e.step t = { e with position := e.position.stepToward e.destination e.speed } ∨
          e.step t = { e with destination := e.position })) := by
  rw [step]
  by_cases hstays : e.isBeing = false ∨ e.position = e.destination ∨ e.speed = 0
  · exact .inl ⟨if_pos (by simpa [or_assoc] using hstays), hstays⟩
  · obtain ⟨hb, hp, hs⟩ : e.isBeing ≠ false ∧ e.position ≠ e.destination ∧ e.speed ≠ 0 := by
      simpa [not_or] using hstays
    refine .inr ⟨by simpa using hb, hp, hs, ?_⟩
    rw [if_neg (by simp [hb, hp, hs])]
    by_cases hw : t.isWalkable (e.position.stepToward e.destination e.speed) = true
    · exact .inl ⟨hw, if_pos hw⟩
    · exact .inr (if_neg hw)

theorem persists_step (t : Terrain) (e : Entity) : e.Persists (e.step t) := by
  obtain ⟨h, -⟩ | ⟨-, -, -, ⟨-, h⟩ | h⟩ := step_cases t e
  · rw [h]
    exact .refl e
  · rw [h]
    exact ⟨rfl, rfl, rfl, rfl, rfl, rfl⟩
  · rw [h]
    exact ⟨rfl, rfl, rfl, rfl, rfl, rfl⟩

/-! ### The sort of a monster -/

/-- The sort of a monster. -/
def sort? (e : Entity) : Option UInt16 := e.monster?.map Prod.fst

theorem sort?_eq_none_of_isPlayer {e : Entity} (h : e.isPlayer = true) : e.sort? = none := by
  obtain ⟨looks, hlooks⟩ := isPlayer_eq_true_iff.mp h
  simp [sort?, monster?, hlooks]

theorem sort?_think (r : RandomStream) (e : Entity) : (think r e).1.sort? = e.sort? := by
  obtain h | ⟨sort, mind, mind', hk, h | ⟨p, h⟩⟩ := think_cases r e
  · rw [h]
  · rw [h]
    simp [sort?, monster?, hk]
  · rw [h]
    simp [sort?, monster?, hk, walkTo, raise]

theorem sort?_step (t : Terrain) (e : Entity) : (e.step t).sort? = e.sort? := by
  obtain ⟨h, -⟩ | ⟨-, -, -, ⟨-, h⟩ | h⟩ := step_cases t e <;> rw [h] <;> rfl

/-! ### The passes of a tick -/

/-- The entity after the passes of a tick, if the random stream stands at `r` when it thinks. -/
def live (t : Terrain) (r : RandomStream) (e : Entity) : Entity := (think r e.freeze).1.step t

variable {t : Terrain} {r : RandomStream} {e : Entity}

/-- An entity stays the same to everybody else through the passes of a tick. -/
theorem persists_live (t : Terrain) (r : RandomStream) (e : Entity) : e.Persists (e.live t r) :=
  ((persists_freeze e).trans (persists_think r _)).trans (persists_step t _)

/-- A monster does not become a monster of another sort. -/
theorem sort?_live (t : Terrain) (r : RandomStream) (e : Entity) : (e.live t r).sort? = e.sort? := by
  rw [live, sort?_step, sort?_think]
  rfl

/-- Thinking moves nobody, and what has happened is not forgotten. -/
theorem think_keeps (r : RandomStream) (e : Entity) :
    (think r e).1.position = e.position ∧ (think r e).1.oldPosition = e.oldPosition ∧
      (think r e).1.changes.newOnMap = e.changes.newOnMap ∧
      (think r e).1.changes.attack = e.changes.attack := by
  obtain h | ⟨sort, mind, mind', -, h | ⟨p, h⟩⟩ := think_cases r e
  · rw [h]
    exact ⟨rfl, rfl, rfl, rfl⟩
  · rw [h]
    exact ⟨rfl, rfl, rfl, rfl⟩
  · rw [h]
    exact ⟨rfl, rfl, Bool.or_false _, Bool.or_false _⟩

/-- Whoever has not been given a new destination by a thought has the old one, and nothing else
has happened either. -/
theorem destination_think (h : (think r e).1.changes.newDestination = false) :
    (think r e).1.destination = e.destination ∧ e.changes.newDestination = false := by
  obtain h' | ⟨sort, mind, mind', -, h' | ⟨p, h'⟩⟩ := think_cases r e
  · rw [h'] at h ⊢
    exact ⟨rfl, h⟩
  · rw [h'] at h ⊢
    exact ⟨rfl, h⟩
  · rw [h'] at h
    exact absurd h (by simp [walkTo, raise, Union.union, Changes.union])

/-- A step changes neither where the entity was before nor what has happened to it. -/
theorem step_keeps (t : Terrain) (e : Entity) :
    (e.step t).oldPosition = e.oldPosition ∧ (e.step t).changes = e.changes := by
  obtain ⟨h, -⟩ | ⟨-, -, -, ⟨-, h⟩ | h⟩ := step_cases t e <;> rw [h] <;> exact ⟨rfl, rfl⟩

/-- What the old position is after the passes is where the entity was before them. -/
@[simp] theorem oldPosition_live : (e.live t r).oldPosition = e.position := by
  rw [live, (step_keeps t _).1, (think_keeps r _).2.1]
  rfl

@[simp] theorem newOnMap_live : (e.live t r).changes.newOnMap = e.changes.newOnMap := by
  rw [live, (step_keeps t _).2, (think_keeps r _).2.2.1]
  rfl

@[simp] theorem attack_live : (e.live t r).changes.attack = e.changes.attack := by
  rw [live, (step_keeps t _).2, (think_keeps r _).2.2.2]
  rfl

/-- Nobody leaves the map by walking. -/
theorem contains_position_live (h : t.contains e.position = true) :
    t.contains (e.live t r).position = true := by
  have hthink : (think r e.freeze).1.position = e.position := (think_keeps r _).1
  rw [live]
  obtain ⟨hs, -⟩ | ⟨-, -, -, ⟨hw, hs⟩ | hs⟩ := step_cases t (think r e.freeze).1
  · rwa [hs, hthink]
  · rw [hs]
    exact Terrain.contains_of_isWalkable hw
  · rwa [hs, hthink]

/-- A being with a speed that is on its way after the passes has moved in them. -/
theorem oldPosition_ne_of_walking_live (hbeing : e.isBeing = true) (hspeed : e.speed ≠ 0)
    (hwalk : (e.live t r).position ≠ (e.live t r).destination) :
    (e.live t r).oldPosition ≠ (e.live t r).position := by
  have hp := (persists_freeze e).trans (persists_think r _)
  have hthink : (think r e.freeze).1.position = e.position := (think_keeps r _).1
  rw [oldPosition_live]
  rw [live] at hwalk ⊢
  obtain ⟨hs, hidle⟩ | ⟨-, hne, -, ⟨-, hs⟩ | hs⟩ := step_cases t (think r e.freeze).1
  · rw [hs] at hwalk
    rw [hp.isBeing, hp.speed] at hidle
    rcases hidle with h | h | h
    · exact absurd (hbeing.symm.trans h) (by decide)
    · exact absurd h hwalk
    · exact absurd h hspeed
  · rw [hs, hthink, hp.speed]
    rw [hthink] at hne
    exact (Point.stepToward_ne hne hspeed).symm
  · rw [hs] at hwalk
    exact absurd rfl hwalk

/-- A being that is on its way after the passes, and was not given a new destination, was on its
way to the same point before them. -/
theorem walking_of_walking_live (hwalk : (e.live t r).position ≠ (e.live t r).destination)
    (hnews : (e.live t r).changes.newDestination = false) :
    e.position ≠ e.destination ∧ e.changes.newDestination = false ∧
      (e.live t r).destination = e.destination := by
  rw [live, (step_keeps t _).2] at hnews
  obtain ⟨hdest, hold⟩ := destination_think hnews
  have hthink : (think r e.freeze).1.position = e.position := (think_keeps r _).1
  rw [live] at hwalk ⊢
  obtain ⟨hs, -⟩ | ⟨-, hne, -, ⟨-, hs⟩ | hs⟩ := step_cases t (think r e.freeze).1
  · rw [hs, hdest, hthink] at hwalk
    rw [hs]
    exact ⟨hwalk, hold, hdest⟩
  · rw [hdest, hthink] at hne
    rw [hs]
    exact ⟨hne, hold, hdest⟩
  · rw [hs] at hwalk
    exact absurd rfl hwalk

end Entity

end TileWorld
