import Mathlib.Data.List.Perm.Subperm
import TileWorld.Proofs.Random.Draws
import TileWorld.Proofs.Region.Soundness
import TileWorld.Region.Spawn

/-!
# Where and when monsters come up

A spawn area brings up a monster on a point where somebody can stand, and the point lies in the area
unless the area is empty, also if it reaches past the end of the coordinate space
(`Terrain.findWalkable_eq_some`). It does so only when its clock has run down and fewer of its monsters
are on the map than it may keep up, and then its clock starts again. All that may become of a spawn
area in its turn is `Region.spawn_cases`.

Of those that a spawn area has brought up not more are on the map than it may keep up, and they have
come up at the pace of its clock (`SpawnArea.Tends`). This outlives a turn of the area
(`SpawnArea.Tends.idles`, `SpawnArea.Tends.breeds`) and everything else by which nobody of them comes
(`SpawnArea.Tends.wanes`).
-/

namespace TileWorld

/-- What is found by trying random points of an area is a point of the area on which somebody can
stand. -/
theorem Terrain.findWalkable_eq_some {t : Terrain} {a : Area} {attempts : Nat} {r r' : RandomStream}
    {p : Point} (h : t.findWalkable a attempts r = (some p, r')) :
    t.isWalkable p = true ∧ (a.w ≠ 0 → a.h ≠ 0 → a.contains p = true) := by
  induction attempts generalizing r with
  | zero => cases h
  | succ attempts ih =>
    rw [findWalkable] at h
    by_cases hp : t.isWalkable (r.pointIn a).1 = true
    · simp only [hp, if_true, Prod.mk.injEq, Option.some.injEq] at h
      obtain ⟨rfl, -⟩ := h
      exact ⟨hp, r.contains_pointIn⟩
    · simp only [hp, Bool.false_eq_true, if_false] at h
      exact ih h

/-! ### The turn of a spawn area -/

/-- What is fixed about a spawn area. -/
def SpawnArea.bare (s : SpawnArea) : SpawnArea := { s with population := ∅, countdown := 0 }

/-- What is fixed about a fixture. -/
def Fixture.bare : Fixture → Fixture
  | gate g => gate g
  | spawn s => spawn s.bare

/-- Where there is a spawn area now there has been the same one, if nothing has become of what is fixed
about fixtures. -/
theorem exists_spawn_of_bare {fs fs' : List Fixture} (h : fs'.map Fixture.bare = fs.map Fixture.bare)
    {j : Nat} {s' : SpawnArea} (hs' : fs'[j]? = some (.spawn s')) :
    ∃ s, fs[j]? = some (.spawn s) ∧ s'.bare = s.bare := by
  have hj : (fs[j]?).map Fixture.bare = some (.spawn s'.bare) := by
    rw [← List.getElem?_map, ← h, List.getElem?_map, hs']
    rfl
  obtain ⟨gate | s, hs, hbare⟩ := Option.map_eq_some_iff.mp hj
  · cases hbare
  · exact ⟨s, hs, (Fixture.spawn.inj hbare).symm⟩

/-- The spawn area had its turn on the map, and no monster came up. Its clock may have gone on by one
tick, or it may have started again in vain. -/
structure SpawnArea.Idles (g : Region) (s s' : SpawnArea) : Prop where
  bare : s'.bare = s.bare
  population : s'.population = s.population.filter g.contains
  countdown : s.countdown ≤ s'.countdown + 1

/-- The spawn area had its turn on the map, and the monster came up. -/
structure SpawnArea.Breeds (g : Region) (fresh : EntityId) (s s' : SpawnArea) : Prop where
  due : s.countdown = 0
  room : (s.population.filter g.contains).size < s.capacity
  after : s' = { s with
    population := (s.population.filter g.contains).insert fresh
    countdown := s.interval }

/-- What is fixed about a spawn area stays so when a monster comes up. -/
theorem SpawnArea.Breeds.bare {g : Region} {fresh : EntityId} {s s' : SpawnArea}
    (h : s.Breeds g fresh s') : s'.bare = s.bare := by
  rw [h.after]
  rfl

namespace Region

/-- A spawn area's turn ends in a monster on the map, or in nothing but random numbers drawn. -/
theorem spawn_cases (g : Region) (s : SpawnArea) (fresh : EntityId) : ∃ random s',
    (s.Idles g s' ∧ (g.spawn s fresh = (.idle, s', { g with random }) ∨
      g.spawn s fresh = (.refused, s', { g with random }))) ∨
    ∃ p x g', s.Breeds g fresh s' ∧ g.terrain.isWalkable p = true ∧
      (s.area.w ≠ 0 → s.area.h ≠ 0 → s.area.contains p = true) ∧
      { g with random }.insert (.monster fresh s.sort g.id p) = .ok (x, g') ∧
        g.spawn s fresh = (.placed, s', g'.mark fresh) := by
  rw [spawn, SpawnArea.ready]
  by_cases hfull : (s.population.filter g.contains).size ≥ s.capacity
  · refine ⟨g.random, { s with population := s.population.filter g.contains }, .inl ⟨⟨rfl, rfl, ?_⟩,
      .inl (by simp [hfull])⟩⟩
    exact Nat.le_succ _
  by_cases hwaits : s.countdown > 0
  · refine ⟨g.random, { s with
      population := s.population.filter g.contains
      countdown := s.countdown - 1 }, .inl ⟨⟨rfl, rfl, ?_⟩, .inl (by simp [hfull, hwaits])⟩⟩
    exact Nat.le_of_eq (Nat.sub_add_cancel hwaits).symm
  -- the monster is due, and the clock starts again even if no place is found for it
  have hdue : s.countdown = 0 := Nat.eq_zero_of_not_pos hwaits
  have hidles : s.Idles g { s with
      population := s.population.filter g.contains
      countdown := s.interval } := ⟨rfl, rfl, by simp [hdue]⟩
  rcases hfind : g.terrain.findWalkable s.area spawnAttempts g.random with ⟨_ | p, random⟩
  · exact ⟨random, _, .inl ⟨hidles, .inl (by simp [hfull, hwaits, hfind])⟩⟩
  · obtain ⟨hp, harea⟩ := Terrain.findWalkable_eq_some hfind
    rcases hins : { g with random }.insert (.monster fresh s.sort g.id p) with err | ⟨x, g'⟩
    · exact ⟨random, _, .inl ⟨hidles, .inr (by simp [hfull, hwaits, hfind, hins])⟩⟩
    · refine ⟨random, _, .inr ⟨p, x, g', ⟨hdue, Nat.lt_of_not_le hfull, rfl⟩, hp, harea, hins, ?_⟩⟩
      simp only [hfull, hwaits, hfind, hins, Bool.not_true, Bool.false_eq_true, if_false]
      rfl

end Region

/-! ### A population -/

/-- A monster that has come up. -/
structure Birth where
  /-- The number of the tick. -/
  tick : Nat
  /-- The identity of the monster. -/
  id : EntityId
  /-- The monster, as players get to see it first. -/
  monster : Entity

/-- On the same map nobody of those in `births` has come. -/
structure Region.Wanes (births : List Birth) (g g' : Region) : Prop where
  id : g'.id = g.id
  terrain : g'.terrain = g.terrain
  contains : ∀ x ∈ births, g'.contains x.id = true → g.contains x.id = true

theorem Region.Rewrites.wanes {S : Entity → Entity → Prop} {g g' : Region} (h : Region.Rewrites S g g')
    (births : List Birth) : g.Wanes births g' where
  id := h.id
  terrain := h.terrain
  contains x _ hin := by
    rw [Region.contains_eq_isSome, Option.isSome_iff_exists] at hin ⊢
    obtain ⟨e', he'⟩ := hin
    obtain ⟨e, he, -⟩ := h.back he'
    exact ⟨e, he⟩

/-- The monster is one as the spawn area brings up on the map: it has come up where it may come up, and
there it is at home. -/
structure SpawnArea.Fits (g : Region) (x : Birth) (s : SpawnArea) : Prop where
  id : x.monster.id = x.id
  map : x.monster.map = g.id
  kind : x.monster.kind = .monster s.sort { home := x.monster.position }
  walkable : g.terrain.isWalkable x.monster.position = true
  inside : s.area.w ≠ 0 → s.area.h ≠ 0 → s.area.contains x.monster.position = true

/-- The spawn area has brought up those in `births` on the map, and `n` is the last tick in which it has
had its turn. -/
structure SpawnArea.Tends (g : Region) (births : List Birth) (n : Nat) (s : SpawnArea) : Prop where
  distinct : (births.map Birth.id).Nodup
  /-- The spawn area knows whoever is still on the map. -/
  listed : ∀ x ∈ births, g.contains x.id = true → x.id ∈ s.population
  capped : births.countP (fun x => g.contains x.id) ≤ s.capacity
  fits : ∀ x ∈ births, s.Fits g x
  /-- The clock has gone on by one tick at most in each tick since somebody came up. -/
  waits : ∀ x ∈ births, x.tick + s.interval ≤ n + s.countdown
  apart : births.Pairwise fun x x' => x.tick + s.interval + 1 ≤ x'.tick

/-- A set has at least as many members as a list of different ones of them. -/
theorem OrderedSet.length_le_size {κ : Type} [Ord κ] [Std.TransOrd κ] [Std.LawfulEqOrd κ]
    {t : OrderedSet κ} {l : List κ} (hl : l.Nodup) (hsub : ∀ k ∈ l, k ∈ t) : l.length ≤ t.size := by
  rw [← Std.ExtTreeSet.length_toList]
  exact (hl.subperm fun k hk => Std.ExtTreeSet.mem_toList.mpr (hsub k hk)).length_le

namespace SpawnArea

variable {g g' : Region} {births : List Birth} {x : Birth} {n n' : Nat} {s s' : SpawnArea}

theorem bare_eq_iff : s'.bare = s.bare ↔
    s'.area = s.area ∧ s'.sort = s.sort ∧ s'.capacity = s.capacity ∧ s'.interval = s.interval := by
  simp [bare]

/-- It does not matter who is on the map and what the spawn area keeps in mind. -/
theorem Fits.congr (h : s.Fits g x) (hid : g'.id = g.id) (hterrain : g'.terrain = g.terrain)
    (hbare : s'.bare = s.bare) : s'.Fits g' x where
  id := h.id
  map := h.map.trans hid.symm
  kind := by
    rw [(bare_eq_iff.mp hbare).2.1]
    exact h.kind
  walkable := hterrain ▸ h.walkable
  inside := by
    rw [(bare_eq_iff.mp hbare).1]
    exact h.inside

theorem tends_nil (g : Region) (n : Nat) (s : SpawnArea) : s.Tends g [] n where
  distinct := List.nodup_nil
  listed := by simp
  capped := Nat.zero_le _
  fits := by simp
  waits := by simp
  apart := List.Pairwise.nil

/-- Nobody of a population comes, and time goes on. -/
theorem Tends.wanes (h : s.Tends g births n) (hg : g.Wanes births g') (hn : n ≤ n') :
    s.Tends g' births n' where
  distinct := h.distinct
  listed x hx hin := h.listed x hx (hg.contains x hx hin)
  capped := Nat.le_trans (List.countP_mono_left hg.contains) h.capped
  fits x hx := (h.fits x hx).congr hg.id hg.terrain rfl
  waits x hx := Nat.le_trans (h.waits x hx) (Nat.add_le_add_right hn _)
  apart := h.apart

/-- The spawn area has its turn, and no monster comes up. -/
theorem Tends.idles (h : s.Tends g births n) (hs : s.Idles g s') (hn : n < n') :
    s'.Tends g births n' := by
  obtain ⟨-, -, hcapacity, hinterval⟩ := bare_eq_iff.mp hs.bare
  refine ⟨h.distinct, fun x hx hin => ?_, by rw [hcapacity]; exact h.capped,
    fun x hx => (h.fits x hx).congr rfl rfl hs.bare, fun x hx => ?_, by rw [hinterval]; exact h.apart⟩
  · rw [hs.population]
    exact OrderedSet.mem_filter.mpr ⟨h.listed x hx hin, hin⟩
  · have hwaits := h.waits x hx
    have hclock := hs.countdown
    omega

/-- The spawn area has its turn, and the monster comes up. -/
theorem Tends.breeds (h : s.Tends g births n) (hs : s.Breeds g x.id s') (hn : n < x.tick)
    (hg : g.Wanes births g') (hnew : ∀ y ∈ births, y.id ≠ x.id) (hx : s.Fits g x) :
    s'.Tends g' (births ++ [x]) x.tick := by
  have hpopulation : s'.population = (s.population.filter g.contains).insert x.id := by rw [hs.after]
  have hcountdown : s'.countdown = s.interval := by rw [hs.after]
  obtain ⟨-, -, hcapacity, hinterval⟩ := bare_eq_iff.mp hs.bare
  have hdistinct : ((births ++ [x]).map Birth.id).Nodup := by
    rw [List.map_append, List.nodup_append]
    refine ⟨h.distinct, by simp, fun k hk k' hk' heq => ?_⟩
    obtain ⟨y, hy, rfl⟩ := List.mem_map.mp hk
    exact hnew y hy (heq.trans (List.mem_singleton.mp hk'))
  have hlisted : ∀ y ∈ births ++ [x], g'.contains y.id = true → y.id ∈ s'.population := by
    intro y hy hin
    rw [hpopulation, OrderedSet.mem_insert]
    obtain hy | hy := List.mem_append.mp hy
    · have hin := hg.contains y hy hin
      exact .inr (OrderedSet.mem_filter.mpr ⟨h.listed y hy hin, hin⟩)
    · exact .inl (congrArg Birth.id (List.mem_singleton.mp hy))
  refine ⟨hdistinct, hlisted, ?_, fun y hy => ?_, fun y hy => ?_, ?_⟩
  · -- those that are on the map are different, and the spawn area knows them all
    rw [List.countP_eq_length_filter, ← List.length_map Birth.id]
    have hsublist := (List.filter_sublist (p := fun y => g'.contains y.id)
      (l := births ++ [x])).map Birth.id
    refine Nat.le_trans (OrderedSet.length_le_size (hdistinct.sublist hsublist) fun k hk => ?_)
      (?_ : s'.population.size ≤ s'.capacity)
    · obtain ⟨y, hy, rfl⟩ := List.mem_map.mp hk
      obtain ⟨hy, hin⟩ := List.mem_filter.mp hy
      exact hlisted y hy hin
    · have hroom := hs.room
      have hsize : s'.population.size ≤ (s.population.filter g.contains).size + 1 := by
        rw [hpopulation]
        exact Std.ExtTreeSet.size_insert_le
      rw [hcapacity]
      omega
  · have hy : s.Fits g y := (List.mem_append.mp hy).elim (h.fits y) fun hy =>
      List.mem_singleton.mp hy ▸ hx
    exact hy.congr hg.id hg.terrain hs.bare
  · rw [hinterval, hcountdown]
    obtain hy | hy := List.mem_append.mp hy
    · have hwaits := h.waits y hy
      rw [hs.due] at hwaits
      omega
    · obtain rfl := List.mem_singleton.mp hy
      exact Nat.le_refl _
  · rw [hinterval]
    refine List.pairwise_append.mpr ⟨h.apart, List.pairwise_singleton .., fun y hy y' hy' => ?_⟩
    rw [List.mem_singleton.mp hy']
    have hwaits := h.waits y hy
    rw [hs.due] at hwaits
    omega

end SpawnArea

end TileWorld
