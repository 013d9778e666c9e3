import TileWorld.Proofs.Entity.Leash
import TileWorld.Proofs.World.Population

/-!
# Monsters that nobody sends anywhere

A monster comes into a world at home, and a tick keeps it on its leash. Everything else that may happen
moves it only if it is sent somewhere: it is told to walk to a point, or it is warped. So a monster that
is never sent anywhere is on its leash at any moment of a run (`World.onLeash_of_records`), also amid a
tick, and whoever has had its identity before.

Gates send players, and as long as identities have not come round they send nobody else
(`World.sort?_of_sends_amid`).
-/

namespace TileWorld

/-- A monster that comes onto a map stays on its leash. -/
theorem Entity.OnLeash.arrived {R : UInt16 → Point → Prop} {e : Entity} (h : e.OnLeash R)
    (x : PublicId) : (e.arrived x).OnLeash R :=
  h.congr rfl rfl rfl

namespace Bookkeeping

/-- Whoever was not on the map is a new monster at home. -/
structure Stocked (g : Region) (b : Bookkeeping) : Prop where
  id : b.region.id = g.id
  newcomer : ∀ k e, g.find? k = none → b.region.find? k = some e →
    ∃ sort p x, e = (Entity.monster k sort g.id p).arrived x

/-- Fixtures bring up monsters at home only. -/
theorem kept_stocked (g : Region) : Kept (Stocked g) where
  draws b random hb := ⟨hb.id, hb.newcomer⟩
  wastes b hb := ⟨hb.id, hb.newcomer⟩
  sends b ps map p _ hb := ⟨hb.id, hb.newcomer⟩
  spawns b sort p x g' hb hins := by
    refine ⟨(Region.id_of_insert hins).trans hb.id, fun k e hnone hk => ?_⟩
    obtain ⟨rfl, rfl⟩ | ⟨-, hk⟩ := Region.find?_mark_insert_cases hins hk
    · exact ⟨sort, p, x, by rw [← hb.id]; rfl⟩
    · exact hb.newcomer k e hnone hk

end Bookkeeping

namespace World

variable {config : WorldConfig} {atlas : Atlas} {u v v' w : World} {m map : MapId} {g : Region}
  {k id : EntityId} {e : Entity} {d : Deferred} {i : Incident} {past life later : List Incident}
  {taken : List ScriptCall} {mind : Wanderer} {sort : UInt16} {R : UInt16 → Point → Prop}

theorem stocked_worked (w : World) (g : Region) : (w.worked g).Stocked g := by
  refine (Bookkeeping.kept_stocked g).runAll (b := w.books g) ⟨rfl, fun k e hnone hk => ?_⟩ g.fixtures
  obtain ⟨e₀, he₀, -⟩ := (Region.rewrites_advance g).back hk
  rw [hnone] at he₀
  cases he₀

/-! ### One incident -/

/-- Whoever is called `k` on the map is on its leash, if it is a monster, and its sort and its home are
as `R` has it. -/
def Leashed (R : UInt16 → Point → Prop) (m : MapId) (k : EntityId) (w : World) : Prop :=
  ∀ e, w.Finds m k e → e.OnLeash R

/-- The incident sends somebody called `k` to a point of the map: it is on the map and is told to walk
there, or it is warped there. -/
def Incident.Sends (m : MapId) (k : EntityId) (e : Entity) (i : Incident) : Prop :=
  (∃ u p, i = .asked u (.walk k p) ∧ u.mapOf k = some m ∧ u.Finds m k e) ∨
    ∃ u m' p, i.change? = some (u, .warp k m p) ∧ u.mapOf k = some m' ∧ u.Finds m' k e

/-- The incident brings a monster called `k` to a point of the map: the monster is added there, or it
comes up there when the map has its turn. -/
def Incident.Brings (m : MapId) (k : EntityId) (sort : UInt16) (p : Point) : Incident → Prop
  | .asked _ (.add e) => e = .monster k sort m p
  | .amid (.turn v g) => g.id = m ∧ g.find? k = none ∧
    ∃ x, (v.worked g).region.find? k = some ((Entity.monster k sort m p).arrived x)
  | _ => False

theorem leashed_activate (hv : v.Leashed R m k) (h : v.activate map = .ok (g, v')) :
    v'.Leashed R m k :=
  fun e he => hv e ((finds_activate_iff h).mp he)

theorem leashed_remove {cause : RemovalCause} (hv : v.Leashed R m k)
    (h : v.remove id cause = some (e, v')) : v'.Leashed R m k :=
  fun o ho => hv o (finds_of_remove h ho)

/-- Everybody is on its leash after somebody has come who is. -/
theorem leashed_welcome {x : PublicId} {g' : Region} (hv : v.Leashed R m k) (h : v.Comes e x g g')
    (he : m = e.map → k = e.id → e.OnLeash R) : (v.welcome e g').Leashed R m k := by
  intro o ho
  obtain ho | ⟨hm, hk, rfl⟩ := (finds_welcome_iff h).mp ho
  · exact hv o ho
  · exact (he hm hk).arrived x

theorem leashed_add (hv : v.Leashed R m k) (he : m = e.map → k = e.id → e.OnLeash R) :
    (v.add e).2.Leashed R m k := by
  obtain ⟨err, h⟩ | ⟨-, g, v₁, hact, ⟨err, h⟩ | ⟨x, g', hcomes, h⟩⟩ := v.add_cases e <;> rw [h]
  · exact hv
  · exact leashed_activate hv hact
  · exact leashed_welcome (leashed_activate hv hact) hcomes he

/-- What happens to somebody on a map leaves everybody else on its leash. -/
theorem leashed_modify (hv : v.Leashed R m k) (hg : v.region? g.id = some g) {f : Entity → Entity}
    (hf : m = g.id → k = id → ∀ e, v.Finds m k e → (f e).OnLeash R) :
    (v.setRegion (g.modify id f)).Leashed R m k := by
  intro o ho
  obtain ⟨e, he, rfl⟩ := (finds_modify_iff hg f).mp ho
  split
  · rename_i h
    exact hf h.1 h.2 e he
  · exact hv e he

/-- In the turn of its map a monster lives through the passes of a tick, or it comes up. -/
theorem Orderly.leashed_turn (hv : v.Orderly) (hleash : v.Leashed R m k) (hg : v.region? map = some g)
    (report : TickReport)
    (hbrings : ∀ sort p, (Incident.amid (.turn v g)).Brings m k sort p → R sort p) :
    (v.passRegion g report).2.Leashed R m k := by
  intro o ho
  obtain ⟨-, ho⟩ | ⟨rfl, e, he, rfl⟩ := (finds_turn_iff (hv.id_eq hg) report).mp ho
  · exact hleash o ho
  · refine Entity.OnLeash.clearChanges ?_
    obtain ⟨e₀, r, he₀, rfl⟩ | ⟨hnone, -⟩ := (v.peopled_worked g).cases k e he
    · exact (hleash e₀ ⟨g, hg, he₀⟩).live g.terrain r
    · obtain ⟨sort, p, x, rfl⟩ := (v.stocked_worked g).newcomer k e hnone he
      rw [hv.id_eq hg] at he ⊢
      exact (Entity.onLeash_monster (hbrings sort p ⟨hv.id_eq hg, hnone, x, he⟩) k m).arrived x

/-- Whoever leaves was found where it was listed. -/
theorem exists_finds_of_remove {cause : RemovalCause} (h : v.remove id cause = some (e, v')) :
    ∃ map e₀, v.mapOf id = some map ∧ v.Finds map id e₀ ∧ e.sort? = e₀.sort? := by
  obtain ⟨map, g, leaving, g', hmap, hg, -, hrem, -⟩ := remove_eq_some_iff.mp h
  obtain ⟨e₀, he₀, rfl, -⟩ := Region.remove_eq_some_iff.mp hrem
  exact ⟨map, e₀, hmap, ⟨g, hg, he₀⟩, rfl⟩

/-- Whoever is warped to the map is no monster, if no monster is sent there. -/
theorem Orderly.leashed_warp (hv : v.Orderly) (hleash : v.Leashed R m k) (id : EntityId) (map : MapId)
    (p : Point) (hsends : map = m → k = id → ∀ m' e, v.mapOf k = some m' → v.Finds m' k e →
      e.sort? = none) : (v.warp id map p).2.Leashed R m k := by
  obtain ⟨-, err, v₁, hwarp, rfl | ⟨g, hact⟩⟩ | ⟨-, -, g, v₁, e, v₂, hact, hrem, hends⟩ :=
    hv.toHoused.warp_cases id map p
  · rwa [hwarp]
  · rw [hwarp]
    exact leashed_activate hleash hact
  have hleft : v₂.Leashed R m k := leashed_remove (leashed_activate hleash hact) hrem
  obtain ⟨err, hwarp⟩ | ⟨x, g₂, g', hcomes, hwarp⟩ := hends <;> rw [hwarp]
  · rcases e.isPlayer <;> exact hleft
  · refine leashed_welcome hleft hcomes fun hm hk => Entity.onLeash_of_sort?_eq_none ?_
    have hid : e.id = id := (hv.develops (develops_activate (t := {}) hact)).id_of_remove hrem
    obtain ⟨m', e₀, hlisted, hfinds, hsort⟩ := exists_finds_of_remove hrem
    obtain rfl : k = id := hk.trans hid
    rw [mapOf, locations_activate hact] at hlisted
    exact hsort.trans (hsends hm.symm rfl m' e₀ hlisted ((finds_activate_iff hact).mp hfinds))

/-- A change keeps monsters on their leashes unless it sends one of them anywhere. -/
theorem Orderly.leashed_applyOne (hv : v.Orderly) (hleash : v.Leashed R m k)
    (hchange : i.change? = some (v, d)) (hsends : ∀ e, i.Sends m k e → e.sort? = none) :
    (v.applyOne d).2.Leashed R m k := by
  cases d with
  | remove id cause =>
    rw [applyOne]
    rcases hrem : v.remove id cause with _ | ⟨e, v'⟩
    · exact hleash
    · exact leashed_remove hleash hrem
  | warp id map p =>
    rw [snd_applyOne_warp]
    refine hv.leashed_warp hleash id map p ?_
    rintro rfl rfl m' e hlisted hfinds
    exact hsends e (.inr ⟨v, m', p, hchange, hlisted, hfinds⟩)

/-- Whatever happens, a monster stays on its leash unless it is sent somewhere. -/
theorem Happens.leashed (h : Happens Allows i v v') (hv : v.Orderly) (hleash : v.Leashed R m k)
    (hsends : ∀ e, i.Sends m k e → e.sort? = none)
    (hbrings : ∀ sort p, i.Brings m k sort p → R sort p) : v'.Leashed R m k := by
  cases h with
  | turn hg report => exact hv.leashed_turn hleash hg report hbrings
  | change _ d => exact hv.leashed_applyOne hleash (d := d) rfl hsends
  | @asked _ c hc hne =>
    rcases hchange : Incident.change? (.asked v c) with _ | ⟨u, d⟩
    · cases c with
      | remove | warp => cases hchange
      | tick => exact absurd rfl hne
      | activate | allocate | queueRemoval | say | announce =>
        exact fun e he => hleash e ((finds_execute_iff rfl).mp he)
      | add e =>
        refine leashed_add hleash ?_
        rintro rfl rfl
        exact hc.1.onLeash hbrings
      | enter name =>
        exact leashed_add (v := v.allocateId.2) hleash fun _ _ => Entity.onLeash_of_sort?_eq_none rfl
      | walk id p =>
        rw [execute]
        rcases hset : v.setDestination id p with err | v'
        · exact hleash
        · obtain ⟨map, g, hlisted, hg, -, -, rfl⟩ := setDestination_eq_ok_iff.mp hset
          obtain rfl := hv.id_eq hg
          refine leashed_modify hleash hg ?_
          rintro rfl rfl e he
          have hnone := hsends e (.inl ⟨v, p, rfl, hlisted, he⟩)
          exact Entity.onLeash_of_sort?_eq_none hnone
      | attack id =>
        rw [execute]
        rcases hattack : v.attack id with err | v'
        · exact hleash
        · obtain ⟨map, g, -, hg, -, rfl⟩ := attack_eq_ok_iff.mp hattack
          obtain rfl := hv.id_eq hg
          exact leashed_modify hleash hg fun _ _ e he => (hleash e he).raise _
    · obtain ⟨rfl, heq⟩ := execute_of_change hchange
      rw [heq]
      exact hv.leashed_applyOne hleash hchange hsends

/-! ### The points of a run -/

/-- Incidents lead from one world to another, one after the other. In between the clock goes on, what
waits for the end of a pass is taken down or taken up, and what waits for others is taken. -/
inductive Proceeds (u : World) : List Incident → World → Prop where
  /-- Nothing happens. -/
  | nil : Proceeds u [] u
  /-- Nothing happens on the maps. -/
  | notes {past : List Incident} {v v' : World} (h : Proceeds u past v)
    (hregions : v'.regions = v.regions) (hlocations : v'.locations = v.locations) : Proceeds u past v'
  /-- One more incident. -/
  | step {past : List Incident} {i : Incident} {v v' : World} (h : Proceeds u past v)
    (hi : Happens Allows i v v') : Proceeds u (past ++ [i]) v'

theorem Proceeds.unfolds (h : Proceeds u past v) (h' : Unfolds Allows v life w) :
    Proceeds u (past ++ life) w := by
  induction h' with
  | nil => rwa [List.append_nil]
  | notes _ deferred ticks ih => exact ih.notes rfl rfl
  | step _ hi ih =>
    rw [← List.append_assoc]
    exact ih.step hi

/-- What has been done with a world leads, one incident after the other, to what has become of it. -/
theorem Records.proceeds (h : Records u past taken w) : Proceeds u past w := by
  induction h with
  | start => exact .nil
  | step _ o ho ih =>
    cases o with
    | ask c => exact ih.unfolds (unfolds_incidents ho)
    | takeDeliveries | takeLost | takeCalls =>
      rw [show incidentsOf _ _ = [] from rfl, List.append_nil]
      exact ih.notes rfl rfl

theorem Proceeds.orderly (h : Proceeds u past v) (hu : u.Orderly) : v.Orderly := by
  induction h with
  | nil => exact hu
  | notes _ hregions hlocations ih => exact ih.congr hregions hlocations
  | step _ hi ih => exact ih.develops hi.develops_allowed

/-- Monsters that are sent nowhere stay on their leashes. -/
theorem Proceeds.leashed (h : Proceeds u past v) (hu : u.Orderly) (hleash : u.Leashed R m k)
    (hsends : ∀ i ∈ past, ∀ e, i.Sends m k e → e.sort? = none)
    (hbrings : ∀ i ∈ past, ∀ sort p, i.Brings m k sort p → R sort p) : v.Leashed R m k := by
  induction h with
  | nil => exact hleash
  | @notes past v v' _ hregions _ ih =>
    intro e he
    refine ih hsends hbrings e ?_
    rwa [Finds, region?, ← hregions]
  | @step past i v v' h hi ih =>
    have hlast : i ∈ past ++ [i] := List.mem_append_right _ (List.mem_singleton_self i)
    exact hi.leashed (h.orderly hu)
      (ih (fun i hi => hsends i (List.mem_append_left _ hi))
        fun i hi => hbrings i (List.mem_append_left _ hi)) (hsends i hlast) (hbrings i hlast)

/-! ### Runs -/

/-- As long as identities have not come round, no monster is sent anywhere amid a tick. -/
theorem sort?_of_sends_amid (h : Records (empty config atlas) past taken w)
    (hlt : w.issued < UInt32.size) {moment : Moment} (hmem : .amid moment ∈ past)
    (hsends : (Incident.amid moment).Sends m k e) : e.sort? = none := by
  induction h with
  | start => cases hmem
  | @step past taken w h o ho ih =>
    cases o with
    | takeDeliveries | takeLost | takeCalls =>
      rw [show incidentsOf _ _ = [] from rfl, List.append_nil] at hmem
      exact ih hlt hmem
    | ask c =>
      have hlt' := Nat.lt_of_le_of_lt (Allows.develops ho).issued_le hlt
      obtain hmem | hmem := List.mem_append.mp hmem
      · exact ih hlt' hmem
      · have hw : w.Sound := (sound_of_performed (exists_records_iff.mp ⟨_, _, h⟩)).1 hlt'
        obtain ⟨u, p, heq, -⟩ | ⟨u, m', p, hchange, -, hfinds⟩ := hsends
        · cases heq
        · cases c with
          | tick =>
            obtain ⟨moment', hmoment, heq⟩ := List.mem_map.mp hmem
            cases heq
            cases moment with
            | turn => cases hchange
            | change v d =>
              cases hchange
              exact hw.sort?_of_mem_moments h.unwarped hlt hmoment hfinds
          | _ => simp [incidentsOf, incidents] at hmem

/-- A monster that is never sent anywhere stays on its leash. Let there be a point of a run at which
no monster called `k` is on the map, and a later point up to which nobody has asked for a monster
called `k` to be sent to a point of the map. Then every monster called `k` that is on the map at the
later point has come there in between and is at home where it has come. It is near its home, it goes to
a point near its home, and it stands idle for no longer than any monster does. If identities may have
come round, then no gate must have sent it either. -/
theorem onLeash_of_records
    (hrun : Records (empty config atlas) (past ++ life ++ later) taken w)
    (hpast : Proceeds (empty config atlas) past u) (hlife : Proceeds u life v)
    (hnew : ∀ e, u.Finds m k e → e.sort? = none)
    (hasked : ∀ x c, .asked x c ∈ life → ∀ e, (Incident.asked x c).Sends m k e → e.sort? = none)
    (hgates : w.issued < UInt32.size ∨
      ∀ moment, .amid moment ∈ life → ∀ e, (Incident.amid moment).Sends m k e → e.sort? = none)
    (he : v.Finds m k e) (hkind : e.kind = .monster sort mind) :
    (∃ i ∈ life, i.Brings m k sort mind.home) ∧
      e.position.inRange mind.home wanderRadius = true ∧
      e.destination.inRange mind.home wanderRadius = true ∧
      mind.radius = wanderRadius ∧ mind.countdown ≤ maxIdle := by
  have hsends : ∀ i ∈ life, ∀ e, i.Sends m k e → e.sort? = none := by
    rintro (⟨x, c⟩ | moment) hmem e hsends
    · exact hasked x c hmem e hsends
    · obtain hlt | hgates := hgates
      · exact sort?_of_sends_amid hrun hlt (by simp [hmem]) hsends
      · exact hgates moment hmem e hsends
  have hu : u.Orderly := hpast.orderly (orderly_empty config atlas)
  have hleashed : v.Leashed (fun sort p => ∃ i ∈ life, i.Brings m k sort p) m k :=
    hlife.leashed hu (fun e he => Entity.onLeash_of_sort?_eq_none (hnew e he)) hsends
      fun i hi sort p hbrings => ⟨i, hi, hbrings⟩
  obtain ⟨hhome, hholds⟩ := hleashed e he sort mind hkind
  exact ⟨hhome, hholds.position, hholds.destination, hholds.radius, hholds.countdown⟩

/-! ### An example -/

/-- Ann has been near a den for three ticks. -/
def patrol : World :=
  [.ask (.enter "Ann"), .ask .tick, .ask .tick, .ask .tick].foldl perform (empty {} outpost)

/-- The monster that came up in the first tick has left its home since, and it is near. -/
theorem onLeash_on_patrol : ∃ (e : Entity) (mind : Wanderer) (i : Incident),
    patrol.Finds ⟨1⟩ (.nth 2) e ∧ e.kind = .monster 7 mind ∧
      i.Brings ⟨1⟩ (.nth 2) 7 mind.home ∧ e.position ≠ mind.home ∧
      e.position.inRange mind.home wanderRadius = true ∧
      e.destination.inRange mind.home wanderRadius = true ∧
      mind.radius = wanderRadius ∧ mind.countdown ≤ maxIdle := by
  have hfound : ((patrol.region? ⟨1⟩).bind fun g => (g.find? (.nth 2)).bind fun e =>
      e.monster?.map fun (sort, mind) => (sort, decide (e.position ≠ mind.home))) =
        some (7, true) := by cbv
  have hissued : patrol.issued = 3 := by cbv
  obtain ⟨g, hg, hfound⟩ := Option.bind_eq_some_iff.mp hfound
  obtain ⟨e, he, hfound⟩ := Option.bind_eq_some_iff.mp hfound
  obtain ⟨⟨sort, mind⟩, hmonster, hfound⟩ := Option.map_eq_some_iff.mp hfound
  obtain ⟨rfl, haway⟩ := Prod.mk.inj hfound
  have hkind : e.kind = .monster 7 mind := Entity.monster?_eq_some_iff.mp hmonster
  obtain ⟨life, taken, hlife, hasked⟩ : ∃ life taken, Records (empty {} outpost) life taken patrol ∧
      ∀ x c, .asked x c ∈ life → c = .enter "Ann" := by
    refine ⟨_, _, .step (.step (.step (.step .start (.ask (.enter "Ann")) trivial)
      (.ask .tick) trivial) (.ask .tick) trivial) (.ask .tick) trivial, fun x c hmem => ?_⟩
    have henters : x = empty {} outpost ∧ c = .enter "Ann" := by
      simpa [incidentsOf, incidents] using hmem
    exact henters.2
  have hrun : Records (empty {} outpost) ([] ++ life ++ []) taken patrol := by simpa using hlife
  have hnew : ∀ e, (empty {} outpost).Finds ⟨1⟩ (.nth 2) e → e.sort? = none := by
    rintro e ⟨g, hg, -⟩
    cases hg
  have hnobody : ∀ x c, .asked x c ∈ life →
      ∀ e, (Incident.asked x c).Sends ⟨1⟩ (.nth 2) e → e.sort? = none := by
    intro x c hmem e hsends
    obtain rfl := hasked x c hmem
    obtain ⟨u, p, heq, -⟩ | ⟨u, m', p, hchange, -⟩ := hsends
    · cases heq
    · cases hchange
  have hlt : patrol.issued < UInt32.size := by rw [hissued]; decide
  obtain ⟨⟨i, -, hbrings⟩, hholds⟩ :=
    onLeash_of_records hrun .nil hlife.proceeds hnew hnobody (.inl hlt) ⟨g, hg, he⟩ hkind
  exact ⟨e, mind, i, ⟨g, hg, he⟩, hkind, hbrings, of_decide_eq_true haway, hholds⟩

end World

end TileWorld
