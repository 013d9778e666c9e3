import TileWorld.Proofs.World.Calm
import TileWorld.Proofs.World.Hooks

/-!
# Births in the turn of a map

While the fixtures of a map work, nobody goes and whoever comes has an identity that has just been given
out. So what has been true of a population of monsters when a spawn area begins
to work is true when its turn begins, and what its turn makes of it outlives the work of the others
(`Bookkeeping.tends_runAll`). In this way a spawn area tends to those whom it has brought up in the whole
of a run (`World.births`), when its map has had another turn (`World.Tended.turn`).
-/

namespace TileWorld

namespace Bookkeeping

variable {b b' b'' : Bookkeeping} {births : List Birth} {k : EntityId} {e : Entity} {i j n tick : Nat}
  {f : Fixture} {fs : List Fixture} {s : SpawnArea} {x : Birth}

/-! ### A map outgrows what it has been -/

theorem Outgrows.trans (h : b.Outgrows b') (h' : b'.Outgrows b'') : b.Outgrows b'' where
  id := h'.id.trans h.id
  terrain := h'.terrain.trans h.terrain
  issued_le := Nat.le_trans h.issued_le h'.issued_le
  stays k e hk := h'.stays k e (h.stays k e hk)
  newcomer k e hnone hk := by
    obtain hk | ⟨-, hplayer, hchanges, i, hlt, hle, hid⟩ := h'.find?_cases hk
    · obtain ⟨hplayer, hchanges, i, hlt, hle, hid⟩ := h.newcomer k e hnone hk
      exact ⟨hplayer, hchanges, i, hlt, Nat.le_trans hle h'.issued_le, hid⟩
    · exact ⟨hplayer, hchanges, i, Nat.lt_of_le_of_lt h.issued_le hlt, hle, hid⟩

/-- Whoever has had an identity before and is on the map now was there. -/
theorem Outgrows.find?_of_le (h : b.Outgrows b') (hlt : b'.issued < UInt32.size) (hi : i ≤ b.issued)
    (hk : b'.region.find? (.nth i) = some e) : b.region.find? (.nth i) = some e := by
  obtain hk | ⟨-, -, -, i', hlt', hle, heq⟩ := h.find?_cases hk
  · exact hk
  · -- identities are different as long as they have not come round
    have hsame := EntityId.nth_inj (by omega) (by omega) heq
    omega

/-- While fixtures work, nobody comes back who has come up before. -/
theorem Outgrows.wanes (h : b.Outgrows b') (hlt : b'.issued < UInt32.size)
    (hbirths : ∀ x ∈ births, ∃ i, i ≤ b.issued ∧ x.id = .nth i) :
    b.region.Wanes births b'.region where
  id := h.id
  terrain := h.terrain
  contains x hx hin := by
    obtain ⟨i, hi, hid⟩ := hbirths x hx
    rw [Region.contains_eq_isSome, Option.isSome_iff_exists] at hin ⊢
    obtain ⟨e, he⟩ := hin
    rw [hid] at he ⊢
    exact ⟨e, h.find?_of_le hlt hi he⟩

/-! ### One fixture among others -/

/-- Each fixture has its turn when those before it have worked. -/
theorem exists_run_of_getElem? (b : Bookkeeping) (hf : fs[j]? = some f) :
    ∃ c, b.Outgrows c ∧ (b.runAll fs).1[j]? = some (c.run f).1 ∧
      (b.raised fs)[j]? = some (c.raises? f) ∧ (c.run f).2.Outgrows (b.runAll fs).2 := by
  induction fs generalizing b j with
  | nil => simp at hf
  | cons f₀ fs ih =>
    cases j with
    | zero =>
      obtain rfl : f₀ = f := by simpa using hf
      exact ⟨b, .refl b, rfl, rfl, (b.run f₀).2.outgrows_runAll fs⟩
    | succ j =>
      obtain ⟨c, hbefore, hfixture, hraised, hafter⟩ := ih (b.run f₀).2 (j := j) (by simpa using hf)
      exact ⟨c, (b.outgrows_run f₀).trans hbefore, hfixture, hraised, hafter⟩

theorem length_raised (b : Bookkeeping) (fs : List Fixture) : (b.raised fs).length = fs.length := by
  induction fs generalizing b with
  | nil => rfl
  | cons f fs ih => exact congrArg (· + 1) (ih (b.run f).2)

/-- Nothing becomes of what is fixed about fixtures. -/
theorem bare_runAll (b : Bookkeeping) (fs : List Fixture) :
    (b.runAll fs).1.map Fixture.bare = fs.map Fixture.bare := by
  induction fs generalizing b with
  | nil => rfl
  | cons f fs ih =>
    have hone : (b.run f).1.bare = f.bare := by
      cases f with
      | gate gate => rfl
      | spawn s =>
        obtain ⟨random, s', ⟨hidles, heq | heq⟩ | ⟨p, x, g', hbreeds, -, -, -, heq⟩⟩ :=
          b.region.spawn_cases s (.nth (b.issued + 1)) <;> simp only [run, runSpawn, heq, Fixture.bare]
        · rw [hidles.bare]
        · rw [hidles.bare]
        · rw [hbreeds.bare]
    exact congrArg₂ List.cons hone (ih (b.run f).2)

/-- In its turn a spawn area brings up nobody, or the monster is on the map where it may be. -/
theorem run_spawn_cases (b : Bookkeeping) (s : SpawnArea) : ∃ s', (b.run (.spawn s)).1 = .spawn s' ∧
    ((b.raises? (.spawn s) = none ∧ s.Idles b.region s') ∨
      ∃ monster, b.raises? (.spawn s) = some (.nth (b.issued + 1)) ∧
        s.Breeds b.region (.nth (b.issued + 1)) s' ∧
        (∀ tick, s.Fits b.region ⟨tick, .nth (b.issued + 1), monster⟩) ∧
        (b.run (.spawn s)).2.issued = b.issued + 1 ∧
        (b.run (.spawn s)).2.region.find? (.nth (b.issued + 1)) = some monster) := by
  obtain ⟨random, s', ⟨hidles, heq | heq⟩ | ⟨p, x, g', hbreeds, hp, harea, hins, heq⟩⟩ :=
    b.region.spawn_cases s (.nth (b.issued + 1))
  · exact ⟨s', by simp only [run, runSpawn, heq], .inl ⟨by simp [raises?, heq], hidles⟩⟩
  · exact ⟨s', by simp only [run, runSpawn, heq], .inl ⟨by simp [raises?, heq], hidles⟩⟩
  · refine ⟨s', by simp only [run, runSpawn, heq],
      .inr ⟨(Entity.monster (.nth (b.issued + 1)) s.sort b.region.id p).arrived x,
        by simp [raises?, heq], hbreeds, fun tick => ⟨rfl, rfl, rfl, hp, harea⟩,
        by simp only [run, runSpawn, heq], ?_⟩⟩
    simp only [run, runSpawn, heq]
    exact (Region.find?_mark_insert hins _).trans (if_pos rfl)

/-- The monster that the fixture number `j` brings up when several fixtures work, if it brings one up. -/
def birth? (b : Bookkeeping) (fs : List Fixture) (tick j : Nat) : Option Birth :=
  (b.raised fs)[j]?.join.bind fun id =>
    ((b.runAll fs).2.region.find? id).map fun monster => { tick, id, monster }

/-- Only spawn areas bring monsters up. -/
theorem exists_spawn_of_birth? (h : b.birth? fs tick j = some x) : ∃ s, fs[j]? = some (.spawn s) := by
  obtain ⟨id, hid, -⟩ := Option.bind_eq_some_iff.mp h
  obtain ⟨hj, -⟩ := List.getElem?_eq_some_iff.mp (Option.join_eq_some_iff.mp hid)
  have hj' : j < fs.length := (b.length_raised fs) ▸ hj
  obtain ⟨c, -, -, hraised, -⟩ := b.exists_run_of_getElem? (List.getElem?_eq_getElem hj')
  rcases hf : fs[j] with gate | s
  · rw [hraised, hf] at hid
    cases hid
  · exact ⟨s, by rw [List.getElem?_eq_getElem hj', hf]⟩

/-- What becomes of a spawn area among other fixtures, if it has its turn when the books are `c`. -/
theorem spawn_cases_runAll (b : Bookkeeping) (tick : Nat) (hs : fs[j]? = some (.spawn s)) :
    ∃ c s', b.Outgrows c ∧ c.Outgrows (b.runAll fs).2 ∧ (b.runAll fs).1[j]? = some (.spawn s') ∧
      ((b.birth? fs tick j = none ∧ s.Idles c.region s') ∨
        ∃ x, b.birth? fs tick j = some x ∧ s.Breeds c.region x.id s' ∧ s.Fits c.region x ∧
          x.tick = tick ∧ x.id = .nth (c.issued + 1) ∧ c.issued < (b.runAll fs).2.issued ∧
          (b.runAll fs).2.region.find? x.id = some x.monster) := by
  obtain ⟨c, hbefore, hfixture, hraised, hafter⟩ := b.exists_run_of_getElem? hs
  have hthen : c.Outgrows (b.runAll fs).2 := (c.outgrows_run _).trans hafter
  obtain ⟨s', hs', ⟨hnone, hidles⟩ | ⟨monster, hsome, hbreeds, hfits, hissued, hfind⟩⟩ :=
    c.run_spawn_cases s
  · refine ⟨c, s', hbefore, hthen, hs' ▸ hfixture, .inl ⟨?_, hidles⟩⟩
    rw [birth?, hraised, hnone]
    rfl
  · have hlast := hafter.stays _ _ hfind
    refine ⟨c, s', hbefore, hthen, hs' ▸ hfixture, .inr ⟨⟨tick, .nth (c.issued + 1), monster⟩, ?_,
      hbreeds, hfits tick, rfl, rfl, ?_, hlast⟩⟩
    · rw [birth?, hraised, hsome]
      simp [hlast]
    · exact Nat.lt_of_lt_of_le (Nat.lt_of_lt_of_eq (Nat.lt_succ_self _) hissued.symm) hafter.issued_le

/-- Whoever comes up is a monster under an identity that had not been given out. -/
theorem exists_nth_of_birth? (h : b.birth? fs tick j = some x) :
    ∃ i, b.issued < i ∧ i ≤ (b.runAll fs).2.issued ∧ x.id = .nth i ∧ x.monster.sort?.isSome ∧
      (b.runAll fs).2.region.find? x.id = some x.monster := by
  obtain ⟨s, hs⟩ := exists_spawn_of_birth? h
  obtain ⟨c, s', hbefore, -, -, ⟨hnone, -⟩ | ⟨y, hy, -, hfits, -, hid, hlast, hfind⟩⟩ :=
    b.spawn_cases_runAll tick hs
  · rw [h] at hnone
    cases hnone
  · obtain rfl : x = y := Option.some.inj (h.symm.trans hy)
    exact ⟨c.issued + 1, Nat.lt_succ_of_le hbefore.issued_le, hlast, hid,
      by simp [Entity.sort?, Entity.monster?, hfits.kind], hfind⟩

/-- A spawn area tends to those whom it has brought up, when fixtures have worked and it is one of
them. -/
theorem tends_runAll (hs : fs[j]? = some (.spawn s)) (h : s.Tends b.region births n) (hn : n < tick)
    (hbirths : ∀ x ∈ births, ∃ i, i ≤ b.issued ∧ x.id = .nth i)
    (hlt : (b.runAll fs).2.issued < UInt32.size) :
    ∃ s', (b.runAll fs).1[j]? = some (.spawn s') ∧
      s'.Tends (b.runAll fs).2.region (births ++ (b.birth? fs tick j).toList) tick := by
  obtain ⟨c, s', hbefore, hafter, hs', hwork⟩ := b.spawn_cases_runAll tick hs
  have hle := hbefore.issued_le
  have hle' := hafter.issued_le
  have hbirths' : ∀ x ∈ births, ∃ i, i ≤ c.issued ∧ x.id = .nth i := fun x hx => by
    obtain ⟨i, hi, hid⟩ := hbirths x hx
    exact ⟨i, Nat.le_trans hi hle, hid⟩
  have hdue := h.wanes (hbefore.wanes (by omega) hbirths) (Nat.le_refl n)
  have hwanes := hafter.wanes hlt hbirths'
  refine ⟨s', hs', ?_⟩
  obtain ⟨hnone, hidles⟩ | ⟨x, hsome, hbreeds, hfits, rfl, hid, hnext, -⟩ := hwork
  · rw [hnone, Option.toList_none, List.append_nil]
    exact (hdue.idles hidles hn).wanes hwanes (Nat.le_refl tick)
  · rw [hsome, Option.toList_some]
    refine hdue.breeds hbreeds hn hwanes (fun y hy heq => ?_) hfits
    -- the monster has an identity that had not been given out
    obtain ⟨i, hi, hy⟩ := hbirths' y hy
    have hsame := EntityId.nth_inj (by omega) (by omega) (hy.symm.trans (heq.trans hid))
    omega

end Bookkeeping

namespace World

variable {atlas : Atlas} {v : World} {m map : MapId} {g : Region} {k : EntityId} {e : Entity}
  {i : Incident} {past later : List Incident} {xs : List Birth} {j n : Nat} {x : Birth}

/-! ### The births of a run -/

/-- The monster that the fixture number `j` of a map brings up in an incident, if it brings one up. -/
def Incident.birth? (m : MapId) (j : Nat) : Incident → Option Birth
  | .amid (.turn v g) => if g.id = m then (v.books g).birth? g.fixtures v.ticks j else none
  | _ => none

/-- The monsters that the fixture number `j` of a map has brought up in a run, the oldest first. -/
def births (m : MapId) (j : Nat) (past : List Incident) : List Birth :=
  past.filterMap (Incident.birth? m j)

theorem births_append (m : MapId) (j : Nat) (past later : List Incident) :
    births m j (past ++ later) = births m j past ++ births m j later := List.filterMap_append

theorem births_singleton (m : MapId) (j : Nat) (i : Incident) :
    births m j [i] = (i.birth? m j).toList := by
  rw [births, List.filterMap_cons, List.filterMap_nil]
  cases i.birth? m j <;> rfl

/-- Nobody is brought up on a map that has no turn. -/
theorem births_eq_nil (h : ∀ i ∈ past, i.turned? ≠ some m) : births m j past = [] := by
  refine List.filterMap_eq_nil_iff.mpr fun i hi => ?_
  rcases i with _ | ⟨v, g⟩ | _
  · rfl
  · exact if_neg fun hid => h _ hi (congrArg some hid)
  · rfl

/-- Whoever has been brought up has come. -/
theorem exists_comings_of_births (h : x ∈ births m j past) : ∃ i ∈ past, x.id ∈ i.comings := by
  obtain ⟨i, hi, hx⟩ := List.mem_filterMap.mp h
  refine ⟨i, hi, ?_⟩
  rcases i with _ | ⟨v, g⟩ | _
  · cases hx
  · rw [Incident.birth?] at hx
    split at hx
    · obtain ⟨id, hid, hx⟩ := Option.bind_eq_some_iff.mp hx
      obtain ⟨monster, -, rfl⟩ := Option.map_eq_some_iff.mp hx
      have hraised := List.mem_of_getElem? (Option.join_eq_some_iff.mp hid)
      exact List.mem_flatMap.mpr ⟨_, hraised, Option.mem_toList.mpr rfl⟩
    · cases hx
  · cases hx

/-! ### The turn of a map -/

/-- Whoever has had an identity before the turn of a map is found where it was, and a monster is of the
sort that it was. -/
theorem Sound.exists_finds_of_turn (hv : v.Sound) (hg : v.region? map = some g) (report : TickReport)
    (hlt : (v.passRegion g report).2.issued < UInt32.size) (hk : v.Issued k)
    (he : (v.passRegion g report).2.Finds m k e) : ∃ e₀, v.Finds m k e₀ ∧ e.sort? = e₀.sort? := by
  obtain ⟨-, hfinds⟩ | ⟨rfl, e, hfind, rfl⟩ := (finds_turn_iff (hv.region hg).1 report).mp he
  · exact ⟨e, hfinds, rfl⟩
  · obtain ⟨e₀, r, he₀, rfl⟩ | ⟨hnot, -⟩ := v.stems_worked g hlt k e hfind
    · exact ⟨e₀, ⟨g, hg, he₀⟩, e₀.sort?_live g.terrain r⟩
    · exact absurd hk hnot

/-- The fixture number `j` of a map, if it is a spawn area, tends to those in `xs`, and `n` is the last
tick in which it has had its turn. Under the identity of one of them only such a monster is found. -/
structure Tended (atlas : Atlas) (m : MapId) (j : Nat) (xs : List Birth) (n : Nat) (v : World) :
    Prop where
  atlas_eq : v.atlas = atlas
  issued : ∀ x ∈ xs, v.Issued x.id
  monsters : ∀ x ∈ xs, x.monster.sort?.isSome
  found : ∀ x ∈ xs, ∀ m' e, v.Finds m' x.id e → e.sort? = x.monster.sort?
  unborn : v.region? m = none → xs = []
  built : ∀ g, v.region? m = some g → ∃ plan, atlas.plan m = some plan ∧
    g.fixtures.map Fixture.bare = plan.fixtures.map Fixture.bare
  tends : ∀ g s, v.region? m = some g → g.fixtures[j]? = some (.spawn s) → s.Tends g xs n

/-- Whoever comes up in the turn of a map is found there and nowhere else. -/
theorem Sound.found_of_birth? (hv : v.Sound) (hg : v.region? m = some g) (report : TickReport)
    (hlt : (v.passRegion g report).2.issued < UInt32.size)
    (hx : (v.books g).birth? g.fixtures n j = some x)
    (he : (v.passRegion g report).2.Finds map x.id e) : e.sort? = x.monster.sort? := by
  obtain ⟨i, hi, hle, hid, -, hfind⟩ := Bookkeeping.exists_nth_of_birth? hx
  obtain ⟨-, g₀, hg₀, hfinds⟩ | ⟨-, e₀, he₀, rfl⟩ := (finds_turn_iff (hv.region hg).1 report).mp he
  · have hissued := hv.issued (hv.located.mpr ⟨g₀, e, hg₀, hfinds⟩)
    exact absurd (hid ▸ hissued) (not_issued_of_lt hi (Nat.lt_of_le_of_lt hle hlt))
  · rw [Option.some.inj (hfind.symm.trans he₀)]
    rfl

/-- In the turn of its map a spawn area tends to those who were there, and to the monster that comes
up. -/
theorem Tended.turn (h : Tended atlas m j xs n v) (hv : v.Sound) (hg : v.region? m = some g)
    (report : TickReport) (hlt : (v.passRegion g report).2.issued < UInt32.size) (hn : n < v.ticks) :
    Tended atlas m j (xs ++ (Incident.birth? m j (.amid (.turn v g))).toList) v.ticks
      (v.passRegion g report).2 := by
  have hbirth : Incident.birth? m j (.amid (.turn v g)) =
    (v.books g).birth? g.fixtures v.ticks j := if_pos (hv.region hg).1
  have hregion : (v.passRegion g report).2.region? m = some (v.arranged g).clearChanges :=
    (hv.region?_passRegion hg report m).trans (if_pos rfl)
  have hfixtures : (v.arranged g).clearChanges.fixtures = ((v.books g).runAll g.fixtures).1 := rfl
  rw [hbirth]
  refine ⟨h.atlas_eq, fun x hx => ?_, fun x hx => ?_, fun x hx m' e he => ?_, fun hnone => ?_,
    fun g' hg' => ?_, fun g' s' hg' hs' => ?_⟩
  · obtain hx | hx := List.mem_append.mp hx
    · exact (h.issued x hx).of_le (v.issued_le_worked g)
    · obtain ⟨i, hi, hle, hid, -⟩ := Bookkeeping.exists_nth_of_birth? (Option.mem_toList.mp hx)
      exact ⟨i, Nat.zero_lt_of_lt hi, hle, hid⟩
  · obtain hx | hx := List.mem_append.mp hx
    · exact h.monsters x hx
    · obtain ⟨i, -, -, -, hsort, -⟩ := Bookkeeping.exists_nth_of_birth? (Option.mem_toList.mp hx)
      exact hsort
  · obtain hx | hx := List.mem_append.mp hx
    · obtain ⟨e₀, he₀, hsort⟩ := hv.exists_finds_of_turn hg report hlt (h.issued x hx) he
      rw [hsort]
      exact h.found x hx m' e₀ he₀
    · exact hv.found_of_birth? hg report hlt (Option.mem_toList.mp hx) he
  · rw [hregion] at hnone
    cases hnone
  · obtain rfl := Option.some.inj (hregion.symm.trans hg')
    rw [hfixtures, Bookkeeping.bare_runAll]
    exact h.built g hg
  · obtain rfl := Option.some.inj (hregion.symm.trans hg')
    rw [hfixtures] at hs'
    obtain ⟨s, hs, -⟩ := exists_spawn_of_bare (Bookkeeping.bare_runAll _ _) hs'
    have hnumbers : ∀ x ∈ xs, ∃ i, i ≤ (v.books g).issued ∧ x.id = .nth i := fun x hx => by
      obtain ⟨i, -, hi, hid⟩ := h.issued x hx
      exact ⟨i, hi, hid⟩
    have hstart := (h.tends g s hg hs).wanes ((Region.rewrites_advance g).wanes xs) (Nat.le_refl n)
    obtain ⟨s₁, hs₁, htends⟩ := (v.books g).tends_runAll hs hstart hn hnumbers hlt
    obtain rfl : s₁ = s' := Fixture.spawn.inj (Option.some.inj (hs₁.symm.trans hs'))
    have hclear := (Region.rewrites_clearChanges (v.arranged g)).wanes
      (xs ++ ((v.books g).birth? g.fixtures v.ticks j).toList)
    exact htends.wanes ⟨hclear.id, hclear.terrain, hclear.contains⟩ (Nat.le_refl _)

end World

end TileWorld
