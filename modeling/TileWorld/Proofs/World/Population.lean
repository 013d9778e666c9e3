import TileWorld.Proofs.World.Births

/-!
# The population of a spawn area

A spawn area drops those whom it misses on its map from its population only when it has its turn, and its
clock stands still while the population is complete. All the same its bounds hold at any moment of a run
(`World.population_of_records`), if no monster is warped and whoever is added has an identity under which
nobody has come: of those whom it has brought up not more are on the map than it may keep up, and between
two of them its clock has run down.

In between the turns of a map nobody of a population can come to it (`World.Recedes`). In a tick the map
has its turn once, and then the number of the tick is higher than in the turn before.
-/

namespace TileWorld

open Relation

namespace World

variable {config : WorldConfig} {atlas : Atlas} {K : EntityId → Prop} {u v v' v'' w : World}
  {m map : MapId} {g : Region} {k id : EntityId} {e : Entity} {p : Point} {d : Deferred} {c : Command}
  {i : Incident} {past : List Incident} {taken : List ScriptCall} {xs : List Birth} {j n n' : Nat}
  {x : Birth} {M : MapId → Prop} {P : MapId → EntityId → Prop} {maps : List MapId}
  {s : TickReport × World}

/-! ### The clock -/

theorem ticks_warp (v : World) (id : EntityId) (map : MapId) (p : Point) :
    (v.warp id map p).2.ticks = v.ticks := by
  obtain ⟨err, h⟩ | ⟨g, v₁, hact, ⟨err, h⟩ | ⟨e, v₂, hrem, ⟨err, h⟩ | ⟨x, g₂, g', hcomes, h⟩⟩⟩ :=
    v.warp_cases id map p <;> rw [h]
  · exact (sameRest_activate hact).ticks
  all_goals
    have hleft : v₂.ticks = v.ticks := ((sameRest_activate hact).trans (sameRest_remove hrem)).ticks
  · rcases e.isPlayer <;> exact hleft
  · exact hleft

theorem ticks_applyOne (v : World) (d : Deferred) : (v.applyOne d).2.ticks = v.ticks := by
  cases d with
  | remove id cause =>
    rw [applyOne]
    rcases h : v.remove id cause with _ | ⟨e, v'⟩
    · rfl
    · exact (sameRest_remove h).ticks
  | warp id map p =>
    rw [snd_applyOne_warp]
    exact v.ticks_warp id map p

theorem ticks_applyAll (v : World) (ds : List Deferred) : (v.applyAll ds).2.ticks = v.ticks := by
  induction ds generalizing v with
  | nil => rfl
  | cons d ds ih => exact (ih _).trans (v.ticks_applyOne d)

theorem ticks_settle (v : World) (report : TickReport) : (v.settle report).2.ticks = v.ticks :=
  ticks_applyAll { v with deferred := [] } v.deferred

/-- The clock stands still while a map has its pass. -/
theorem ticks_passMap (map : MapId) (s : TickReport × World) :
    (passMap map s).2.ticks = s.2.ticks := by
  obtain ⟨report, v⟩ := s
  rw [passMap]
  rcases v.region? map with _ | g
  · rfl
  · exact (v.passRegion g report).2.ticks_settle _

/-- A tick counts itself. -/
theorem ticks_tick (w : World) : w.tick.2.ticks = w.ticks + 1 := by
  obtain ⟨report, v, hv, heq⟩ := tick_eq_settle (w := w) (I := fun _ v => v.ticks = w.ticks + 1)
    (fun map _ v report hv => (ticks_passMap map (report, v)).trans hv) rfl
  rw [heq, ticks_settle, hv]

theorem ticks_of_mem_restMoments (h : .turn v g ∈ restMoments maps s) : v.ticks = s.2.ticks := by
  induction maps generalizing s with
  | nil => exact absurd h (turn_not_mem_applyMoments _ _)
  | cons map maps ih =>
    obtain h | h := List.mem_append.mp h
    · obtain ⟨report, u⟩ := s
      rw [passMoments] at h
      split at h
      · cases h
      · obtain heq | h := List.mem_cons.mp h
        · cases heq
          rfl
        · exact absurd h (turn_not_mem_applyMoments _ _)
    · exact (ih h).trans (ticks_passMap map s)

/-- Whenever a map has its turn in a tick, the clock shows the number of the tick. -/
theorem ticks_of_mem_moments (h : .turn v g ∈ w.moments) : v.ticks = w.ticks + 1 :=
  ticks_of_mem_restMoments h

/-- Only a tick moves the clock. -/
theorem ticks_execute (hne : c ≠ .tick) : (v.execute c).ticks = v.ticks := by
  have hadds (u : World) (e : Entity) : (u.add e).2.ticks = u.ticks := by
    obtain ⟨err, h⟩ | ⟨-, g, v₁, hact, ⟨err, h⟩ | ⟨x, g', hcomes, h⟩⟩ := u.add_cases e <;> rw [h]
    · exact (sameRest_activate hact).ticks
    · exact ((sameRest_activate hact).ticks :)
  by_cases hdeed : c.isDeed = true
  · obtain heq | ⟨map, g, id, f, -, -, heq⟩ | ⟨ds, heq⟩ := v.execute_deed_cases hdeed <;> rw [heq] <;>
      rfl
  cases c with
  | walk | attack | say | announce => exact absurd rfl hdeed
  | tick => exact absurd rfl hne
  | allocate | queueRemoval => rfl
  | activate map =>
    rw [execute]
    rcases hact : v.activate map with err | ⟨g, v'⟩
    · rfl
    · exact (sameRest_activate hact).ticks
  | add e => exact hadds v e
  | enter name => exact hadds v.allocateId.2 _
  | remove id cause =>
    rw [execute_remove, ticks_applyOne]
  | warp id map p => exact v.ticks_warp id map p

/-! ### Warps in a tick -/

theorem Sound.escorts_of_mem_applyMoments (hv : v.Sound) {ds : List Deferred}
    (hlt : (v.applyAll ds).2.issued < UInt32.size) (hescorts : v.Escorts ds)
    (h : .change u (.warp id map p) ∈ applyMoments v ds) :
    u.Sound ∧ (u.Resides id → u.Plays id) := by
  induction ds generalizing v with
  | nil => cases h
  | cons d ds ih =>
    have hone : Develops .ofTick v (v.applyOne d).2 := develops_applyOne (mayApply_ofTick d)
    have hlt' := Nat.lt_of_le_of_lt ((v.applyOne d).2.develops_applyAll_ofTick ds).issued_le hlt
    obtain heq | h := List.mem_cons.mp h
    · cases heq
      exact ⟨hv, hescorts id map p List.mem_cons_self⟩
    · exact ih (hv.develops hone hlt') hlt
        (hv.tally_applyOne (Nat.lt_of_le_of_lt hone.issued_le hlt') hescorts).1 h

/-- Whoever is warped in a tick is a player, if it is anywhere. -/
theorem Sound.escorts_of_mem_restMoments (hs : s.2.Sound) (hunwarped : s.2.Unwarped)
    (hlt : (restOfTick maps s).2.issued < UInt32.size)
    (h : .change u (.warp id map p) ∈ restMoments maps s) :
    u.Sound ∧ (u.Resides id → u.Plays id) := by
  -- what waits when a map has had its turn, or in the end
  have hsettle {v : World} (report : TickReport) (hv : v.Sound) (hescorts : v.Escorts v.deferred)
      (hlt : (v.settle report).2.issued < UInt32.size)
      (h : .change u (.warp id map p) ∈ v.settleMoments) : u.Sound ∧ (u.Resides id → u.Plays id) :=
    (hv.congr rfl rfl (Nat.le_refl _) : { v with deferred := [] }.Sound).escorts_of_mem_applyMoments
      hlt hescorts h
  induction maps generalizing s with
  | nil => exact hsettle s.1 hs (fun id map p hmem => absurd hmem (hunwarped id map p)) hlt h
  | cons map₁ maps ih =>
    have hlt' := Nat.lt_of_le_of_lt (develops_restOfTick maps (World.passMap map₁ s)).issued_le hlt
    obtain h | h := List.mem_append.mp h
    · obtain ⟨report, v⟩ := s
      rw [World.passMap] at hlt'
      rw [passMoments] at h
      rcases hg : v.region? map₁ with _ | g
      · rw [hg] at h
        cases h
      · simp only [hg] at h hlt'
        have hthen := (v.passRegion g report).2.develops_settle_ofTick (v.passRegion g report).1
        have hlt'' := Nat.lt_of_le_of_lt hthen.issued_le hlt'
        obtain heq | h := List.mem_cons.mp h
        · cases heq
        · exact hsettle _ (hs.turn hg report hlt'') (hs.escorts_turn hunwarped hg report hlt'') hlt' h
    · exact ih (hs.passMap map₁ s.1 hlt') (Unwarped.passMap hunwarped map₁ s.1) hlt h

/-- In a tick nobody but players is warped. -/
theorem Sound.sort?_of_mem_moments (hw : w.Sound) (hunwarped : w.Unwarped)
    (hlt : w.tick.2.issued < UInt32.size) (h : .change u (.warp id map p) ∈ w.moments)
    (he : u.Finds m id e) : e.sort? = none := by
  have hstart : { w with ticks := w.ticks + 1 }.Sound := hw.congr rfl rfl (Nat.le_refl _)
  have hstart' : { w with ticks := w.ticks + 1 }.Unwarped := hunwarped.congr rfl
  obtain ⟨hu, hplays⟩ := Sound.escorts_of_mem_restMoments hstart hstart' hlt h
  obtain ⟨g, hg, hfind⟩ := he
  have hresides : u.Resides id := Option.isSome_of_eq_some (hu.located.mpr ⟨g, e, hg, hfind⟩)
  obtain ⟨m', g', hg', e', he', hplayer⟩ := hplays hresides
  obtain ⟨-, rfl⟩ := hu.finds_unique ⟨g, hg, hfind⟩ ⟨g', hg', he'⟩
  exact Entity.sort?_eq_none_of_isPlayer hplayer

/-! ### Between the turns of a map -/

/-- On the map nothing has had its turn, and nobody in `K` has come to any map. A monster in `K` is of
the sort that it was. -/
structure Recedes (K : EntityId → Prop) (m : MapId) (v v' : World) : Prop where
  atlas : v'.atlas = v.atlas
  issued_le : v.issued ≤ v'.issued
  finds : ∀ k m' e', K k → v'.Finds m' k e' → ∃ e, v.Finds m' k e ∧ e'.sort? = e.sort?
  ground : ∀ g, v.region? m = some g → ∃ g', v'.region? m = some g' ∧ g.SameGround g'
  opened : ∀ g', v.region? m = none → v'.region? m = some g' →
    ∃ plan, v.atlas.plan m = some plan ∧ g'.fixtures = plan.fixtures

theorem recedes_of_eq (hatlas : v'.atlas = v.atlas) (hle : v.issued ≤ v'.issued)
    (hregions : v'.regions = v.regions) : Recedes K m v v' := by
  have hregion (map : MapId) : v'.region? map = v.region? map := by rw [region?, hregions, region?]
  refine ⟨hatlas, hle, fun k m' e' _ he' => ⟨e', ?_, rfl⟩, fun g hg => ⟨g, ?_, .refl g⟩,
    fun g' hnone hg' => ?_⟩
  · rwa [Finds, hregion] at he'
  · rw [hregion, hg]
  · rw [hregion, hnone] at hg'
    cases hg'

theorem Recedes.refl (K : EntityId → Prop) (m : MapId) (v : World) : Recedes K m v v :=
  recedes_of_eq rfl (Nat.le_refl _) rfl

theorem Recedes.trans (h : Recedes K m v v') (h' : Recedes K m v' v'') : Recedes K m v v'' where
  atlas := h'.atlas.trans h.atlas
  issued_le := Nat.le_trans h.issued_le h'.issued_le
  finds k m' e'' hk he'' := by
    obtain ⟨e', he', hsort'⟩ := h'.finds k m' e'' hk he''
    obtain ⟨e, he, hsort⟩ := h.finds k m' e' hk he'
    exact ⟨e, he, hsort'.trans hsort⟩
  ground g hg := by
    obtain ⟨g', hg', hsame⟩ := h.ground g hg
    obtain ⟨g'', hg'', hsame'⟩ := h'.ground g' hg'
    exact ⟨g'', hg'', hsame.trans hsame'⟩
  opened g'' hnone hg'' := by
    rcases hg' : v'.region? m with _ | g'
    · rw [← h.atlas]
      exact h'.opened g'' hg' hg''
    · obtain ⟨plan, hplan, hfixtures⟩ := h.opened g' hnone hg'
      obtain ⟨g₀, hg₀, hsame⟩ := h'.ground g' hg'
      obtain rfl : g'' = g₀ := Option.some.inj (hg''.symm.trans hg₀)
      exact ⟨plan, hplan, hsame.fixtures.trans hfixtures⟩

/-- What has happened to those in `P` may have taken somebody in `K` away, or changed it. -/
theorem ConfinedTo.recedes_of_finds (h : ConfinedTo M P v v') (hle : v.issued ≤ v'.issued)
    (hfinds : ∀ k m' e', K k → v'.Finds m' k e' → ∃ e, v.Finds m' k e ∧ e'.sort? = e.sort?) :
    Recedes K m v v' where
  atlas := h.rest.atlas
  issued_le := hle
  finds := hfinds
  ground := h.ground m
  opened g' hnone hg' := by
    obtain ⟨plan, hplan, hsame⟩ := h.opened m g' hnone hg'
    exact ⟨plan, hplan, hsame.fixtures⟩

/-- A change that nobody in `K` is concerned with brings nobody in `K` to any map. -/
theorem ConfinedTo.recedes (h : ConfinedTo M P v v') (hle : v.issued ≤ v'.issued)
    (hP : ∀ k m', K k → ¬ P m' k) : Recedes K m v v' :=
  h.recedes_of_finds hle fun k m' e' hk he' => ⟨e', (h.finds m' k e' (hP k m' hk)).mp he', rfl⟩

theorem recedes_activate (h : v.activate map = .ok (g, v')) : Recedes K m v v' :=
  (confinedTo_activate (M := fun _ => True) trivial (fun _ _ => False) h).recedes
    (Nat.le_of_eq (frame_activate h).issued.symm) fun _ _ _ => id

theorem recedes_remove {cause : RemovalCause} (h : v.remove id cause = some (e, v')) :
    Recedes K m v v' :=
  (confinedTo_remove (M := fun _ => True) (P := fun _ _ => True) h (fun _ _ => trivial)
    fun _ _ => trivial).recedes_of_finds (Nat.le_of_eq (frame_remove h).issued.symm)
      fun _ _ e' _ he' => ⟨e', finds_of_remove h he', rfl⟩

theorem recedes_welcome {y : PublicId} {g' : Region} (h : v.Comes e y g g') (he : ¬ K e.id) :
    Recedes K m v (v.welcome e g') :=
  (confinedTo_welcome (M := fun _ => True) (P := fun _ k => k = e.id) h trivial rfl).recedes
    (Nat.le_refl _) fun _ _ hk heq => he (heq ▸ hk)

theorem recedes_add (he : ¬ K e.id) : Recedes K m v (v.add e).2 := by
  obtain ⟨err, h⟩ | ⟨-, g, v₁, hact, ⟨err, h⟩ | ⟨y, g', hcomes, h⟩⟩ := v.add_cases e <;> rw [h]
  · exact .refl K m v
  · exact recedes_activate hact
  · exact (recedes_activate hact).trans (recedes_welcome hcomes he)

/-- What somebody does on its map makes no monster of it. -/
theorem Housed.recedes_act (hv : v.Housed) (hg : v.region? map = some g) {f : Entity → Entity}
    (hf : ∀ e, (f e).sort? = e.sort?) : Recedes K m v (v.setRegion (g.modify id f)) := by
  obtain rfl : g.id = map := hv.id_eq hg
  refine (confinedTo_modify (M := fun _ => True) (P := fun _ _ => True) hg rfl trivial trivial
    f).recedes_of_finds (Nat.le_refl _) fun k m' e' _ he' => ?_
  obtain ⟨e, he, rfl⟩ := (finds_modify_iff hg f).mp he'
  refine ⟨e, he, ?_⟩
  split
  · exact hf e
  · rfl

/-- If nobody in `K` goes elsewhere, then nobody in `K` comes. -/
theorem Orderly.recedes_applyOne (hv : v.Orderly)
    (hstays : ∀ id map p, d = .warp id map p → ∀ m' e, v.Finds m' id e → ¬ K id) :
    Recedes K m v (v.applyOne d).2 := by
  cases d with
  | remove id cause =>
    rw [applyOne]
    rcases hrem : v.remove id cause with _ | ⟨e, v'⟩
    · exact .refl K m v
    · exact recedes_remove hrem
  | warp id map p =>
    rw [snd_applyOne_warp]
    obtain ⟨-, err, v', hwarp, hv'⟩ | ⟨hid, -, g, v₁, e, v₂, hact, hrem, hends⟩ :=
      hv.toHoused.warp_cases id map p
    · rw [hwarp]
      obtain rfl | ⟨g, hact⟩ := hv'
      · exact .refl K m v'
      · exact recedes_activate hact
    · have hleaves : Recedes K m v v₂ := (recedes_activate hact).trans (recedes_remove hrem)
      obtain ⟨err, hwarp⟩ | ⟨y, g₂, g', hcomes, hwarp⟩ := hends <;> rw [hwarp]
      · refine hleaves.trans ?_
        split
        · exact recedes_of_eq rfl (Nat.le_refl _) rfl
        · exact .refl K m v₂
      · obtain ⟨m', hm'⟩ := Option.ne_none_iff_exists'.mp hid
        obtain ⟨g₀, e₀, hg₀, he₀⟩ := hv.here hm'
        have hv₁ : v₁.Orderly := hv.develops (develops_activate (t := {}) hact)
        have hid' : e.id = id := hv₁.id_of_remove hrem
        refine hleaves.trans (recedes_welcome hcomes ?_)
        rw [show (e.place map p).id = id from hid']
        exact hstays id map p rfl m' e₀ ⟨g₀, hg₀, he₀⟩

/-- The incident is not the turn of the map, nobody in `K` is added and no monster is warped. -/
structure Incident.Spares (K : EntityId → Prop) (m : MapId) (i : Incident) : Prop where
  turned : i.turned? ≠ some m
  add : ∀ u e, i = .asked u (.add e) → ¬ K e.id
  warp : ∀ u id map p, i.change? = some (u, .warp id map p) →
    ∀ m' e, u.Finds m' id e → e.sort? = none

/-- In an incident that spares the map and those in `K`, none of them comes to a map. -/
theorem Happens.recedes (h : Happens Allows i v v') (hv : v.Sound) (hlt : v'.issued < UInt32.size)
    (hK : ∀ k, K k → v.Issued k) (hmonsters : ∀ k m' e, K k → v.Finds m' k e → e.sort?.isSome)
    (hi : i.Spares K m) : Recedes K m v v' := by
  have hstays (d : Deferred) (hchange : i.change? = some (v, d)) (id : EntityId) (map : MapId)
      (p : Point) (hd : d = .warp id map p) (m' : MapId) (e : Entity) (he : v.Finds m' id e) :
      ¬ K id := fun hk => by
    have hsort := hmonsters id m' e hk he
    rw [hi.warp v id map p (by rw [hchange, hd]) m' e he] at hsort
    cases hsort
  cases h with
  | change _ d => exact hv.orderly.recedes_applyOne (hstays d rfl)
  | @turn _ map g hg report =>
    have hne : m ≠ map := fun heq => hi.turned (congrArg some ((hv.region hg).1.trans heq.symm))
    have hsame : (v.passRegion g report).2.region? m = v.region? m :=
      (hv.region?_passRegion hg report m).trans (if_neg hne)
    refine ⟨rfl, v.issued_le_worked g,
      fun k m' e' hk he' => hv.exists_finds_of_turn hg report hlt (hK k hk) he',
      fun g₀ hg₀ => ⟨g₀, hsame.trans hg₀, .refl g₀⟩, fun g' hnone hg' => ?_⟩
    rw [hsame, hnone] at hg'
    cases hg'
  | @asked _ c hc hne =>
    rcases hchange : Incident.change? (.asked v c) with _ | ⟨u, d⟩
    · by_cases hdeed : c.isDeed = true
      · obtain heq | ⟨map, g, id, f, hg, hf, heq⟩ | ⟨ds, heq⟩ := v.execute_deed_cases hdeed <;> rw [heq]
        · exact .refl K m v
        · refine hv.orderly.toHoused.recedes_act hg fun e => ?_
          obtain ⟨p, rfl⟩ | rfl := hf <;> rfl
        · exact recedes_of_eq rfl (Nat.le_refl _) rfl
      cases c with
      | walk | attack | say | announce => exact absurd rfl hdeed
      | tick => exact absurd rfl hne
      | remove | warp => cases hchange
      | allocate => exact recedes_of_eq rfl (Nat.le_succ _) rfl
      | queueRemoval => exact recedes_of_eq rfl (Nat.le_refl _) rfl
      | activate map =>
        rw [execute]
        rcases hact : v.activate map with err | ⟨g, v'⟩
        · exact .refl K m v
        · exact recedes_activate hact
      | add e => exact recedes_add (hi.add v e rfl)
      | enter name =>
        obtain ⟨v₁, hfirst, -, hissued, hends⟩ := v.enter_confined name
        have hfirst : Recedes K m v v₁ := hfirst.recedes (by omega) fun _ _ _ => id
        rw [execute] at hlt ⊢
        obtain ⟨err, h⟩ | ⟨e, y, g, g', hcomes, -, -, -, hid, h⟩ := hends <;> rw [h] at hlt ⊢
        · exact hfirst
        · refine hfirst.trans (recedes_welcome hcomes fun hk => ?_)
          have hlt : v₁.issued < UInt32.size := hlt
          exact not_issued_nth (hissued ▸ hlt) (hid ▸ hK _ hk)
    · obtain ⟨rfl, heq⟩ := execute_of_change hchange
      rw [heq]
      exact hv.orderly.recedes_applyOne (hstays d hchange)

/-- As long as all incidents spare the map and those in `K`, none of them comes to a map. -/
theorem Unfolds.recedes (h : Unfolds Allows u past v) (hu : u.Sound) (hlt : v.issued < UInt32.size)
    (hK : ∀ k, K k → u.Issued k) (hmonsters : ∀ k m' e, K k → u.Finds m' k e → e.sort?.isSome)
    (hpast : ∀ i ∈ past, i.Spares K m) : Recedes K m u v := by
  induction h with
  | nil => exact .refl K m u
  | notes _ deferred ticks ih => exact (ih hlt hpast).trans (recedes_of_eq rfl (Nat.le_refl _) rfl)
  | @step past i v v' h hi ih =>
    have hlt' := Nat.lt_of_le_of_lt hi.develops_allowed.issued_le hlt
    have hv := hu.develops h.develops_allowed hlt'
    have hbefore := ih hlt' fun i hi => hpast i (List.mem_append_left _ hi)
    refine hbefore.trans (hi.recedes hv hlt
      (fun k hk => (hK k hk).of_le hbefore.issued_le) (fun k m' e' hk he' => ?_)
      (hpast i (List.mem_append_right _ (List.mem_singleton_self i))))
    obtain ⟨e, he, hsort⟩ := hbefore.finds k m' e' hk he'
    rw [hsort]
    exact hmonsters k m' e hk he

/-- While nobody of a population comes, the spawn area tends to it. -/
theorem Tended.recedes (h : Tended atlas m j xs n v) (hr : Recedes (· ∈ xs.map Birth.id) m v v')
    (hn : n ≤ n') : Tended atlas m j xs n' v' := by
  have hmem {x : Birth} (hx : x ∈ xs) : x.id ∈ xs.map Birth.id := List.mem_map_of_mem hx
  refine ⟨hr.atlas.trans h.atlas_eq, fun x hx => (h.issued x hx).of_le hr.issued_le, h.monsters,
    fun x hx m' e' he' => ?_, fun hnone => ?_, fun g' hg' => ?_, fun g' s hg' hs => ?_⟩
  · obtain ⟨e, he, hsort⟩ := hr.finds x.id m' e' (hmem hx) he'
    rw [hsort]
    exact h.found x hx m' e he
  · rcases hg : v.region? m with _ | g
    · exact h.unborn hg
    · obtain ⟨g', hg', -⟩ := hr.ground g hg
      rw [hnone] at hg'
      cases hg'
  · rcases hg : v.region? m with _ | g
    · obtain ⟨plan, hplan, hfixtures⟩ := hr.opened g' hg hg'
      exact ⟨plan, h.atlas_eq ▸ hplan, by rw [hfixtures]⟩
    · obtain ⟨g₀, hg₀, hsame⟩ := hr.ground g hg
      obtain rfl : g' = g₀ := Option.some.inj (hg'.symm.trans hg₀)
      rw [hsame.fixtures]
      exact h.built g hg
  · rcases hg : v.region? m with _ | g
    · rw [h.unborn hg]
      exact SpawnArea.tends_nil g' n' s
    · obtain ⟨g₀, hg₀, hsame⟩ := hr.ground g hg
      obtain rfl : g' = g₀ := Option.some.inj (hg'.symm.trans hg₀)
      refine (h.tends g s hg (hsame.fixtures ▸ hs)).wanes ⟨hsame.id, hsame.terrain, ?_⟩ hn
      intro x hx hin
      rw [Region.contains_eq_isSome, Option.isSome_iff_exists] at hin ⊢
      obtain ⟨e', he'⟩ := hin
      obtain ⟨e, he, -⟩ := hr.finds x.id m e' (hmem hx) ⟨g', hg', he'⟩
      exact ⟨e, (finds_iff hg).mp he⟩

/-- The same through a part of a run in which the map has no turn. -/
theorem Tended.unfolds (h : Tended atlas m j xs n u) (hu : u.Sound)
    (hpast : Unfolds Allows u past v) (hlt : v.issued < UInt32.size)
    (hspares : ∀ i ∈ past, i.Spares (· ∈ xs.map Birth.id) m) (hn : n ≤ n') :
    Tended atlas m j xs n' v := by
  refine h.recedes (hpast.recedes hu hlt (fun k hk => ?_) (fun k m' e hk he => ?_) hspares) hn
  · obtain ⟨x, hx, rfl⟩ := List.mem_map.mp hk
    exact h.issued x hx
  · obtain ⟨x, hx, rfl⟩ := List.mem_map.mp hk
    rw [h.found x hx m' e he]
    exact h.monsters x hx

/-! ### A tick -/

/-- A tick in which the map has no turn spares it: only players are warped. -/
theorem Sound.spares_of_mem_moments (hw : w.Sound) (hunwarped : w.Unwarped)
    (hlt : w.tick.2.issued < UInt32.size) (hi : i ∈ w.incidents .tick) (hturned : i.turned? ≠ some m)
    (K : EntityId → Prop) : i.Spares K m := by
  obtain ⟨moment, hmoment, rfl⟩ := List.mem_map.mp hi
  refine ⟨hturned, fun u e heq => (by cases heq), fun u id map p hchange m' e he => ?_⟩
  rcases moment with _ | ⟨v, d⟩
  · cases hchange
  · cases hchange
    exact hw.sort?_of_mem_moments hunwarped hlt hmoment he

/-- In a tick a map in use has its turn once, and the clock then shows the number of the tick. -/
theorem Housed.exists_turn_of_incidents (hw : w.Housed) (hm : (w.region? m).isSome) :
    ∃ before v g report after, w.incidents .tick = before ++ ([.amid (.turn v g)] ++ after) ∧
      (∀ i ∈ before ++ after, i.turned? ≠ some m) ∧ v.region? m = some g ∧
      v.ticks = w.ticks + 1 ∧ Unfolds Allows w before v ∧
        Unfolds Allows (v.passRegion g report).2 after w.tick.2 := by
  obtain ⟨before, v, g, after, hmoments, hid, hothers⟩ := exists_turn_of_moments hw hm
  have hticks : v.ticks = w.ticks + 1 := ticks_of_mem_moments (g := g) (by simp [hmoments])
  obtain ⟨_, _, hbefore, hturn, hafter⟩ := unfolds_of_moments Allows hmoments
  cases hturn with
  | @turn _ map _ hg report =>
    have hv : v.Housed := hbefore.develops_allowed.keeps (P := Housed) (fun h hv => hv.alters h) hw
    obtain rfl : map = m := (hv.id_eq hg).symm.trans hid
    refine ⟨before.map .amid, v, g, report, after.map .amid, ?_, fun i hi => ?_, hg, hticks, hbefore,
      hafter⟩
    · rw [incidents, hmoments, List.map_append, List.map_cons]
      rfl
    · rw [← List.map_append] at hi
      obtain ⟨moment, hmoment, rfl⟩ := List.mem_map.mp hi
      exact hothers moment hmoment

/-- Through a tick a spawn area tends to those who were there, and to the monster that comes up. -/
theorem Tended.tick (h : Tended atlas m j xs w.ticks w) (hw : w.Sound) (hunwarped : w.Unwarped)
    (hlt : w.tick.2.issued < UInt32.size) :
    Tended atlas m j (xs ++ births m j (w.incidents .tick)) w.tick.2.ticks w.tick.2 := by
  have hspares {K : EntityId → Prop} {i : Incident} (hi : i ∈ w.incidents .tick) :=
    hw.spares_of_mem_moments (m := m) (K := K) hunwarped hlt hi
  by_cases hm : (w.region? m).isSome
  · obtain ⟨before, v, g, report, after, hincidents, hothers, hg, hticks, hbefore, hafter⟩ :=
      hw.orderly.toHoused.exists_turn_of_incidents hm
    have hbefore' (i : Incident) (hi : i ∈ before) := hothers i (List.mem_append_left _ hi)
    have hafter' (i : Incident) (hi : i ∈ after) := hothers i (List.mem_append_right _ hi)
    have hbirths : births m j (w.incidents .tick) =
        (Incident.birth? m j (.amid (.turn v g))).toList := by
      rw [hincidents, births_append, births_append, births_eq_nil hbefore', births_eq_nil hafter',
        births_singleton, List.nil_append, List.append_nil]
    have hlt' := Nat.lt_of_le_of_lt hafter.develops_allowed.issued_le hlt
    have hlt'' := Nat.lt_of_le_of_lt (v.issued_le_worked g) hlt'
    have hv : v.Sound := hw.develops hbefore.develops_allowed hlt''
    -- before the turn, in the turn, and after it
    have hfirst : Tended atlas m j xs w.ticks v := by
      refine h.unfolds hw hbefore hlt'' (fun i hi => hspares ?_ (hbefore' i hi)) (Nat.le_refl _)
      rw [hincidents]
      exact List.mem_append_left _ hi
    have hthen := hfirst.turn hv hg report hlt' (hticks ▸ Nat.lt_succ_self _)
    rw [hbirths]
    refine hthen.unfolds (hv.turn hg report hlt') hafter hlt
      (fun i hi => hspares ?_ (hafter' i hi)) ?_
    · rw [hincidents]
      exact List.mem_append_right _ (List.mem_append_right _ hi)
    · rw [ticks_tick, hticks]
  · -- the map has no turn, since it was not in use when the tick began
    have hnone : ∀ i ∈ w.incidents .tick, i.turned? ≠ some m := fun i hi hturned => by
      obtain ⟨moment, hmoment, rfl⟩ := List.mem_map.mp hi
      have hmem : m ∈ w.regions.keys := by
        rw [← filterMap_turned?_moments hw.orderly.toHoused]
        exact List.mem_filterMap.mpr ⟨moment, hmoment, hturned⟩
      exact hm (mem_keys_iff.mp hmem)
    rw [births_eq_nil hnone, List.append_nil]
    refine h.unfolds hw w.unfolds_tick hlt (fun i hi => hspares hi (hnone i hi)) ?_
    rw [ticks_tick]
    exact Nat.le_succ _

/-! ### Whole runs -/

/-- Whoever has been added had an identity under which nobody had come. -/
def AddsFresh (past : List Incident) : Prop :=
  ∀ before u e after, past = before ++ .asked u (.add e) :: after → ∀ i ∈ before, e.id ∉ i.comings

/-- Nobody has asked for a monster to be warped. -/
def WarpsNoMonster (past : List Incident) : Prop :=
  ∀ u id map p, .asked u (.warp id map p) ∈ past → ∀ m e, u.Finds m id e → e.monster? = none

/-- If all have been added under new identities, then so have those in the beginning. -/
theorem AddsFresh.of_append {later : List Incident} (h : AddsFresh (past ++ later)) :
    AddsFresh past := by
  rintro before u e after rfl
  exact h before u e (after ++ later) (by simp)

theorem WarpsNoMonster.of_append {later : List Incident} (h : WarpsNoMonster (past ++ later)) :
    WarpsNoMonster past :=
  fun u id map p hmem => h u id map p (List.mem_append_left _ hmem)

/-- Between two commands no warp waits. -/
theorem Records.unwarped (h : Records (empty config atlas) past taken w) : w.Unwarped := by
  induction h with
  | start => exact fun _ _ _ hmem => absurd hmem List.not_mem_nil
  | @step past taken w h o ho ih =>
    cases o with
    | ask c => exact ih.execute c
    | takeDeliveries | takeLost | takeCalls => exact ih.congr rfl

/-- Whatever is done with a world, its spawn areas tend to those whom they have brought up. -/
theorem Records.tended (h : Records (empty config atlas) past taken w) (hlt : w.issued < UInt32.size)
    (hadds : AddsFresh past) (hwarps : WarpsNoMonster past) (m : MapId) (j : Nat) :
    Tended atlas m j (births m j past) w.ticks w := by
  induction h with
  | start => exact ⟨rfl, by simp [births], by simp [births], by simp [births], fun _ => rfl,
      by simp [empty, region?], by simp [empty, region?]⟩
  | @step past taken w h o ho ih =>
    have hlt' : w.issued < UInt32.size := by
      cases o with
      | ask c => exact Nat.lt_of_le_of_lt (Allows.develops ho).issued_le hlt
      | takeDeliveries | takeLost | takeCalls => exact hlt
    have hprev := ih hlt' hadds.of_append hwarps.of_append
    have hw : w.Sound := (sound_of_performed (exists_records_iff.mp ⟨_, _, h⟩)).1 hlt'
    cases o with
    | takeDeliveries | takeLost | takeCalls =>
      rw [show w.incidentsOf _ = [] from rfl, List.append_nil]
      exact hprev.recedes (recedes_of_eq rfl (Nat.le_refl _) rfl) (Nat.le_refl _)
    | ask c =>
      rw [births_append]
      by_cases htick : c = .tick
      · subst htick
        exact hprev.tick hw h.unwarped hlt
      · have hincidents : w.incidentsOf (.ask c) = [.asked w c] := by
          cases c with
          | tick => exact absurd rfl htick
          | _ => rfl
        have hspares : (Incident.asked w c).Spares (· ∈ (births m j past).map Birth.id) m := by
          refine ⟨by simp [Incident.turned?], fun u e heq hmem => ?_,
            fun u id map p hchange m' e he => ?_⟩
          · cases heq
            obtain ⟨x, hx, hid⟩ := List.mem_map.mp hmem
            obtain ⟨i, hi, hcomes⟩ := exists_comings_of_births hx
            exact hadds past w e [] (by rw [hincidents]) i hi (hid ▸ hcomes)
          · obtain ⟨map', p', rfl⟩ : ∃ map' p', c = .warp id map' p' := by
              cases c <;> cases hchange
              exact ⟨_, _, rfl⟩
            obtain rfl : w = u := by
              cases hchange
              rfl
            have hnone := hwarps w id map' p' (by rw [hincidents]; simp) m' e he
            rw [Entity.sort?, hnone]
            rfl
        rw [hincidents, births_singleton, show Incident.birth? m j (.asked w c) = none from rfl,
          Option.toList_none, List.append_nil]
        refine hprev.unfolds hw (.single (.asked ho htick)) hlt (fun i hi => ?_)
          (Nat.le_of_eq (ticks_execute htick).symm)
        exact List.mem_singleton.mp hi ▸ hspares

/-- Whatever is done with a world in which nobody asks for a monster to be warped, and whoever is added
has an identity under which nobody has come: each spawn area is as the plan of its map says, and all
that it has brought up are different. Of those that are still on the map there are not more than the
spawn area may keep up, they are in its population, and they are monsters of its sort. All have come up
on the map on a point where somebody can stand, which lies in the area unless the area is empty, and
which is the home of the monster. From one of them to the next the spawn area has let its interval
pass. -/
theorem population_of_records (h : Records (empty config atlas) past taken w)
    (hlt : w.issued < UInt32.size) (hadds : AddsFresh past) (hwarps : WarpsNoMonster past)
    {s : SpawnArea} (hg : w.region? m = some g) (hs : g.fixtures[j]? = some (.spawn s)) :
    (∃ plan s₀, atlas.plan m = some plan ∧ g.terrain = plan.terrain ∧
      plan.fixtures[j]? = some (.spawn s₀) ∧ s.area = s₀.area ∧ s.sort = s₀.sort ∧
        s.capacity = s₀.capacity ∧ s.interval = s₀.interval) ∧
    ((births m j past).map Birth.id).Nodup ∧
    (births m j past).countP (fun x => g.contains x.id) ≤ s.capacity ∧
    (∀ x ∈ births m j past, ∀ e, g.find? x.id = some e →
      x.id ∈ s.population ∧ e.sort? = some s.sort) ∧
    (∀ x ∈ births m j past, ∃ p, g.terrain.isWalkable p = true ∧
      (s.area.w ≠ 0 → s.area.h ≠ 0 → s.area.contains p = true) ∧
      x.monster.id = x.id ∧ x.monster.map = m ∧ x.monster.position = p ∧
        x.monster.kind = .monster s.sort { home := p }) ∧
    (births m j past).Pairwise fun x x' => x.tick + s.interval + 1 ≤ x'.tick := by
  have htended := h.tended hlt hadds hwarps m j
  have htends := htended.tends g s hg hs
  obtain ⟨hsound, hkept, -⟩ := sound_of_performed (exists_records_iff.mp ⟨_, _, h⟩)
  have hid : g.id = m := ((hsound hlt).region hg).1
  obtain ⟨plan, hplan, hbare⟩ := htended.built g hg
  obtain ⟨plan', hplan', hground⟩ := hkept m g hg
  obtain rfl : plan = plan' := Option.some.inj (hplan.symm.trans hplan')
  obtain ⟨s₀, hs₀, hsame⟩ := exists_spawn_of_bare hbare hs
  refine ⟨⟨plan, s₀, hplan, hground.terrain, hs₀, SpawnArea.bare_eq_iff.mp hsame⟩, htends.distinct,
    htends.capped, fun x hx e he => ⟨htends.listed x hx ?_, ?_⟩, fun x hx => ?_, htends.apart⟩
  · rw [Region.contains_eq_isSome, he]
    rfl
  · rw [htended.found x hx m e ⟨g, hg, he⟩, Entity.sort?, Entity.monster?, (htends.fits x hx).kind]
    rfl
  · have hfits := htends.fits x hx
    exact ⟨_, hfits.walkable, hfits.inside, hfits.id, hfits.map.trans hid, rfl, hfits.kind⟩

/-! ### An example -/

/-- Ann has been near the den for a while, and one of the monsters has been removed meanwhile. -/
def den : World :=
  [.ask (.enter "Ann"), .ask .tick, .ask .tick, .ask (.remove (.nth 2) .death), .ask .tick].foldl
    perform (empty {} outpost)

/-- The spawn area that a fixture is, if it is one. -/
def spawnArea? : Fixture → Option SpawnArea
  | .gate _ => none
  | .spawn s => some s

/-- Three monsters have come up there, one in each tick, and two of them are there. -/
theorem population_at_den : ∃ past taken g s, Records (empty {} outpost) past taken den ∧
    den.region? ⟨1⟩ = some g ∧ g.fixtures[0]? = some (.spawn s) ∧
    (births ⟨1⟩ 0 past).map Birth.tick = [1, 2, 3] ∧
    (births ⟨1⟩ 0 past).countP (fun x => g.contains x.id) = 2 ∧ s.capacity = 2 ∧
    ∀ x ∈ births ⟨1⟩ 0 past, ∀ e, g.find? x.id = some e → x.id ∈ s.population ∧ e.sort? = some 7 := by
  obtain ⟨past, taken, hrecord, hadds, hwarps, hticks, hden⟩ : ∃ past taken,
      Records (empty {} outpost) past taken den ∧ AddsFresh past ∧ WarpsNoMonster past ∧
      (births ⟨1⟩ 0 past).map Birth.tick = [1, 2, 3] ∧
      ((den.region? ⟨1⟩).bind fun g => (g.fixtures[0]?.bind spawnArea?).map fun s =>
        ((births ⟨1⟩ 0 past).countP (fun x => g.contains x.id), s.capacity, s.sort)) =
          some (2, 2, 7) := by
    refine ⟨_, _, .step (.step (.step (.step (.step .start (.ask (.enter "Ann")) trivial)
      (.ask .tick) trivial) (.ask .tick) trivial) (.ask (.remove (.nth 2) .death)) trivial)
        (.ask .tick) trivial, ?_, ?_, by cbv, by cbv⟩
    · rintro before u e after heq
      have hmem : Incident.asked u (.add e) ∈ before ++ .asked u (.add e) :: after := by simp
      rw [← heq] at hmem
      simp [incidentsOf, incidents] at hmem
    · rintro u id map p hmem
      simp [incidentsOf, incidents] at hmem
  have hissued : den.issued = 4 := by cbv
  obtain ⟨g, hg, hrest⟩ := Option.bind_eq_some_iff.mp hden
  obtain ⟨s, hspawn, hrest⟩ := Option.map_eq_some_iff.mp hrest
  obtain ⟨fixture, hs, hspawn⟩ := Option.bind_eq_some_iff.mp hspawn
  cases fixture with
  | gate a => cases hspawn
  | spawn s =>
    cases hspawn
    simp only [Prod.mk.injEq] at hrest
    obtain ⟨hcount, hcapacity, hsort⟩ := hrest
    obtain ⟨-, -, -, hlisted, -⟩ :=
      population_of_records hrecord (by rw [hissued]; decide) hadds hwarps hg hs
    exact ⟨past, taken, g, s, hrecord, hg, hs, hticks, hcount, hcapacity, hsort ▸ hlisted⟩

end World

end TileWorld
