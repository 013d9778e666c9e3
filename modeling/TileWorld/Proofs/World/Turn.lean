import TileWorld.Proofs.Region.Spawning
import TileWorld.World.Tick

/-!
# The turn of a map

While the fixtures of a map do their work, only a few things can happen: random numbers are drawn,
identities are given out, players in gates are put down for a warp, and monsters come up. Whatever
outlives these (`Bookkeeping.Kept`) outlives the work of all fixtures (`Bookkeeping.Kept.runAll`). In
particular everybody stays, and nobody comes but new monsters (`Bookkeeping.Outgrows`). What becomes
of the world in a whole turn is `World.passRegion_eq`.
-/

namespace TileWorld

namespace Region

/-- The map with other things built into it. -/
def fitted (g : Region) (fixtures : List Fixture) : Region := { g with fixtures }

end Region

namespace Bookkeeping

/-- The bookkeeping after a monster has come up. -/
def spawnedIn (b : Bookkeeping) (g : Region) : Bookkeeping :=
  { b with
    region := g.mark (.nth (b.issued + 1))
    issued := b.issued + 1
    locations := b.locations.insert (.nth (b.issued + 1)) b.region.id
    spawned := b.spawned + 1 }

/-- What outlives everything that fixtures do. -/
structure Kept (I : Bookkeeping → Prop) : Prop where
  /-- Random numbers are drawn. -/
  draws : ∀ b random, I b → I { b with region := { b.region with random } }
  /-- An identity is given out, and nobody gets it. -/
  wastes : ∀ b, I b → I { b with issued := b.issued + 1 }
  /-- Players of the map are put down for a warp. -/
  sends : ∀ b (ps : List Entity) map p, (∀ e ∈ ps, e ∈ b.region.players) → I b →
    I { b with deferred := b.deferred ++ ps.map fun e => .warp e.id map p }
  /-- A monster comes up. -/
  spawns : ∀ b sort p x g', I b →
    b.region.insert (.monster (.nth (b.issued + 1)) sort b.region.id p) = .ok (x, g') →
    I (b.spawnedIn g')

variable {I : Bookkeeping → Prop} {b : Bookkeeping}

/-- The identity of the monster that a fixture brings up, if it brings one up. -/
def raises? (b : Bookkeeping) : Fixture → Option EntityId
  | .gate _ => none
  | .spawn s =>
    let fresh := EntityId.nth (b.issued + 1)
    if (b.region.spawn s fresh).1 = .placed then some fresh else none

/-- What each of several fixtures brings up when they work one after the other. -/
def raised (b : Bookkeeping) : List Fixture → List (Option EntityId)
  | [] => []
  | f :: fs => b.raises? f :: (b.run f).2.raised fs

/-- A fixture brings up a monster, or it brings up nobody. -/
theorem run_cases (b : Bookkeeping) (f : Fixture) : ∃ random,
    (b.raises? f = none ∧
      ((∃ (ps : List Entity) (map : MapId) (p : Point), (∀ e ∈ ps, e ∈ b.region.players) ∧
        (b.run f).2 = { b with deferred := b.deferred ++ ps.map fun e => .warp e.id map p }) ∨
      (b.run f).2 = { b with region := { b.region with random } } ∨
      (b.run f).2 = { b with region := { b.region with random }, issued := b.issued + 1 })) ∨
    (b.raises? f = some (.nth (b.issued + 1)) ∧ ∃ sort p x g',
      { b.region with random }.insert (.monster (.nth (b.issued + 1)) sort b.region.id p) =
        .ok (x, g') ∧
      (b.run f).2 = { b with region := { b.region with random } }.spawnedIn g') := by
  cases f with
  | gate gate => exact ⟨b.region.random, .inl ⟨rfl, .inl ⟨_, gate.map, gate.target,
      fun e he => (List.mem_filter.mp he).1, rfl⟩⟩⟩
  | spawn s =>
    obtain ⟨random, s', ⟨-, heq | heq⟩ | ⟨p, x, g', -, -, -, hins, heq⟩⟩ :=
      b.region.spawn_cases s (.nth (b.issued + 1))
    · refine ⟨random, .inl ⟨by simp [raises?, heq], .inr (.inl ?_)⟩⟩
      simp only [run, runSpawn, heq]
    · refine ⟨random, .inl ⟨by simp [raises?, heq], .inr (.inr ?_)⟩⟩
      simp only [run, runSpawn, heq]
    · refine ⟨random, .inr ⟨by simp [raises?, heq], s.sort, p, x, g', hins, ?_⟩⟩
      have hid : (g'.mark (.nth (b.issued + 1))).id = b.region.id := (Region.id_of_insert hins :)
      simp only [run, runSpawn, heq, hid]
      rfl

theorem Kept.run (h : Kept I) (hb : I b) (f : Fixture) : I (b.run f).2 := by
  obtain ⟨random, ⟨-, ⟨ps, map, p, hps, heq⟩ | heq | heq⟩ | ⟨-, sort, p, x, g', hins, heq⟩⟩ :=
    b.run_cases f
  all_goals rw [heq]
  · exact h.sends b ps map p hps hb
  · exact h.draws b random hb
  · exact h.wastes _ (h.draws b random hb)
  · exact h.spawns _ sort p x g' (h.draws b random hb) hins

/-- What outlives everything that fixtures do outlives what all of them do. -/
theorem Kept.runAll (h : Kept I) (hb : I b) (fs : List Fixture) : I (b.runAll fs).2 := by
  induction fs generalizing b with
  | nil => exact hb
  | cons f fs ih => exact ih (h.run hb f)

/-- While fixtures work, everybody stays as it is, and whoever comes is no player, is new on the map and
has an identity that has just been given out. -/
structure Outgrows (b b' : Bookkeeping) : Prop where
  id : b'.region.id = b.region.id
  terrain : b'.region.terrain = b.region.terrain
  issued_le : b.issued ≤ b'.issued
  stays : ∀ k e, b.region.find? k = some e → b'.region.find? k = some e
  newcomer : ∀ k e, b.region.find? k = none → b'.region.find? k = some e →
    e.isPlayer = false ∧ e.changes = { newOnMap := true } ∧
      ∃ i, b.issued < i ∧ i ≤ b'.issued ∧ k = .nth i

theorem Outgrows.refl (b : Bookkeeping) : b.Outgrows b where
  id := rfl
  terrain := rfl
  issued_le := Nat.le_refl _
  stays _ _ hk := hk
  newcomer k e hnone hk := by
    rw [hnone] at hk
    cases hk

theorem kept_outgrows (b : Bookkeeping) : Kept b.Outgrows where
  draws _ _ h := ⟨h.id, h.terrain, h.issued_le, h.stays, h.newcomer⟩
  wastes _ h := by
    refine ⟨h.id, h.terrain, Nat.le_succ_of_le h.issued_le, h.stays, fun k e hnone hk => ?_⟩
    obtain ⟨hplayer, hchanges, i, hlt, hle, hid⟩ := h.newcomer k e hnone hk
    exact ⟨hplayer, hchanges, i, hlt, Nat.le_succ_of_le hle, hid⟩
  sends _ _ _ _ _ h := ⟨h.id, h.terrain, h.issued_le, h.stays, h.newcomer⟩
  spawns c sort p x g' h hins := by
    obtain ⟨-, hfree, -, ids, -, hg'⟩ := Region.insert_eq_ok_iff.mp hins
    refine ⟨(Region.id_of_insert hins).trans h.id, ?_, Nat.le_succ_of_le h.issued_le,
      fun k e hk => ?_, fun k e hnone hk => ?_⟩
    · rw [← h.terrain, hg']
      rfl
    · have hne : k ≠ .nth (c.issued + 1) := by
        rintro rfl
        exact absurd (hfree.symm.trans (h.stays _ _ hk)) (by simp)
      exact (Region.find?_mark_insert hins k).trans ((if_neg hne).trans (h.stays k e hk))
    · obtain ⟨rfl, rfl⟩ | ⟨-, hk⟩ := Region.find?_mark_insert_cases hins hk
      · exact ⟨rfl, rfl, c.issued + 1, Nat.lt_succ_of_le h.issued_le, Nat.le_refl _, rfl⟩
      · obtain ⟨hplayer, hchanges, i, hlt, hle, hid⟩ := h.newcomer k e hnone hk
        exact ⟨hplayer, hchanges, i, hlt, Nat.le_succ_of_le hle, hid⟩

theorem outgrows_run (b : Bookkeeping) (f : Fixture) : b.Outgrows (b.run f).2 :=
  b.kept_outgrows.run (.refl b) f

/-- While fixtures work, nobody is touched, and only new monsters come. -/
theorem outgrows_runAll (b : Bookkeeping) (fs : List Fixture) : b.Outgrows (b.runAll fs).2 :=
  b.kept_outgrows.runAll (.refl b) fs

/-- Whoever is on the map was there, or it is new. -/
theorem Outgrows.find?_cases {b' : Bookkeeping} {k : EntityId} {e : Entity} (h : b.Outgrows b')
    (hk : b'.region.find? k = some e) : b.region.find? k = some e ∨
      b.region.find? k = none ∧ e.isPlayer = false ∧ e.changes = { newOnMap := true } ∧
        ∃ i, b.issued < i ∧ i ≤ b'.issued ∧ k = .nth i := by
  rcases hwas : b.region.find? k with _ | e₀
  · exact .inr ⟨rfl, h.newcomer k e hwas hk⟩
  · exact .inl ((h.stays k e₀ hwas).symm.trans hk)

/-- Fixtures give out identities and take none back. -/
theorem issued_le_runAll (b : Bookkeeping) (fs : List Fixture) : b.issued ≤ (b.runAll fs).2.issued :=
  (b.outgrows_runAll fs).issued_le

/-- The world with all that is in the books, and with `g` in the place of the map. -/
def enter (b : Bookkeeping) (w : World) (g : Region) : World :=
  { w with
    regions := w.regions.insert g.id g
    issued := b.issued
    locations := b.locations
    deferred := b.deferred }

end Bookkeeping

namespace World

/-- The books as they are when a map has its turn and its fixtures begin to work. -/
def books (w : World) (g : Region) : Bookkeeping where
  region := g.advance
  issued := w.issued
  locations := w.locations
  deferred := w.deferred

/-- What the fixtures of a map leave behind in its turn. -/
def worked (w : World) (g : Region) : Bookkeeping := ((w.books g).runAll g.fixtures).2

/-- What the players of a map see in its turn: its fixtures have worked, and what they keep in mind has
been noted. -/
def arranged (w : World) (g : Region) : Region :=
  (w.worked g).region.fitted ((w.books g).runAll g.fixtures).1

/-- In its turn a map goes through the passes, its fixtures do their work, the players are told
what they see, and what happened is forgotten. -/
theorem snd_passRegion (w : World) (g : Region) (report : TickReport) :
    (w.passRegion g report).2 =
      ((w.worked g).enter w (w.arranged g).clearChanges).post
        ((w.arranged g).synchronize w.config.range) := rfl

/-- It does not matter for what follows what has become of the fixtures. -/
theorem passRegion_eq (w : World) (g : Region) (report : TickReport) :
    ∃ fixtures, (w.passRegion g report).2 =
      ((w.worked g).enter w ((w.worked g).region.fitted fixtures).clearChanges).post
        (((w.worked g).region.fitted fixtures).synchronize w.config.range) :=
  ⟨_, w.snd_passRegion g report⟩

/-- In its turn a map outgrows what it has been when its fixtures begin to work. -/
theorem outgrows_worked (w : World) (g : Region) : (w.books g).Outgrows (w.worked g) :=
  (w.books g).outgrows_runAll g.fixtures

/-- It is the same map after its fixtures have worked. -/
theorem region_id_worked (w : World) (g : Region) : (w.worked g).region.id = g.id :=
  (w.outgrows_worked g).id

/-- Nothing is put down for removal while fixtures work. -/
theorem mem_deferred_worked {w : World} {g : Region} {id : EntityId} {cause : RemovalCause}
    (h : Deferred.remove id cause ∈ (w.worked g).deferred) : .remove id cause ∈ w.deferred := by
  have hkept : Bookkeeping.Kept fun b =>
      Deferred.remove id cause ∈ b.deferred → .remove id cause ∈ w.deferred := by
    refine ⟨fun _ _ hb => hb, fun _ hb => hb, ?_, fun _ _ _ _ _ hb _ => hb⟩
    intro b ps map p _ hb hmem
    rcases List.mem_append.mp hmem with hmem | hmem
    · exact hb hmem
    · obtain ⟨e, -, heq⟩ := List.mem_map.mp hmem
      cases heq
  exact hkept.runAll (b := w.books g) (fun h => h) g.fixtures h

/-- The turn of a map gives out identities and takes none back. -/
theorem issued_le_worked (w : World) (g : Region) : w.issued ≤ (w.worked g).issued :=
  (w.outgrows_worked g).issued_le

end World

end TileWorld
