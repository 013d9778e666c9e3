import TileWorld.Proofs.World.Delivery
import TileWorld.Proofs.World.Representation

/-!
# A tick as one map sees it

In a tick each map has its turn, and in between the changes are carried out that have been asked for.
For one of the maps a tick is what happens before its turn, the turn, and what happens after it
(`World.exists_turn_of_tick`). Before the turn, whoever was on the map is still there as it was or is
nowhere, since only players on other maps can be sent there (`World.finds_of_waiting`). Whoever is
there in the end, and is not new, was there when the turn was over (`World.finds_of_done`). Outside
of the turn nobody on the map is told of movement.
-/

namespace TileWorld

open Relation Delivery

/-! ### Who is on the map after its turn -/

namespace Bookkeeping

/-- Everybody on the map has been there and has lived through the passes, or it is a monster with an
identity that was not given out when the turn began. -/
def Stems (w : World) (g : Region) (b : Bookkeeping) : Prop :=
  ∀ k e, b.region.find? k = some e →
    (∃ e₀ r, g.find? k = some e₀ ∧ e = e₀.live g.terrain r) ∨
      (¬ w.Issued k ∧ e.isPlayer = false)

/-- Whoever is put down for a warp has been put down before or is a player on the map. -/
def SendsItsOwn (w : World) (b : Bookkeeping) : Prop :=
  ∀ id map p, .warp id map p ∈ b.deferred → .warp id map p ∈ w.deferred ∨
    ∃ k e, b.region.find? k = some e ∧ e.id = id ∧ e.isPlayer = true

theorem kept_sendsItsOwn (w : World) : Kept (SendsItsOwn w) where
  draws b random hb := hb
  wastes b hb := hb
  sends b ps map p hps hb id map' p' hmem := by
    rcases List.mem_append.mp hmem with hmem | hmem
    · exact hb id map' p' hmem
    · obtain ⟨e, he, heq⟩ := List.mem_map.mp hmem
      cases heq
      obtain ⟨hmem, hplayer⟩ := Region.mem_players_iff.mp (hps e he)
      obtain ⟨k, hk⟩ := Region.mem_entities_iff.mp hmem
      exact .inr ⟨k, e, hk, rfl, hplayer⟩
  spawns b sort p x g' hb hins id map' p' hmem := by
    refine (hb id map' p' hmem).imp_right ?_
    rintro ⟨k, e, hk, hid, hplayer⟩
    obtain ⟨-, hfree, -⟩ := Region.insert_eq_ok_iff.mp hins
    have hne : k ≠ .nth (b.issued + 1) := by
      rintro rfl
      exact absurd (hfree.symm.trans hk) (by simp)
    exact ⟨k, e, (Region.find?_mark_insert hins k).trans ((if_neg hne).trans hk), hid, hplayer⟩

end Bookkeeping

namespace World

variable {J : EntityId → Prop} {T : MapId → Prop} {u v w w' : World} {m map : MapId}
  {k id : EntityId} {e o : Entity}

theorem stems_worked (w : World) (g : Region) (hlt : (w.worked g).issued < UInt32.size) :
    (w.worked g).Stems w g := by
  intro k e hk
  obtain hk | ⟨-, hplayer, -, i, hlt', hle, rfl⟩ := (w.outgrows_worked g).find?_cases hk
  · obtain ⟨e₀, he₀, r, rfl⟩ := (Region.rewrites_advance g).back hk
    exact .inl ⟨e₀, r, he₀, rfl⟩
  · exact .inr ⟨not_issued_of_lt hlt' (Nat.lt_of_le_of_lt hle hlt), hplayer⟩

theorem sendsItsOwn_worked (w : World) (g : Region) : (w.worked g).SendsItsOwn w :=
  (Bookkeeping.kept_sendsItsOwn w).runAll (b := w.books g) (fun _ _ _ h => .inl h) g.fixtures

/-! ### Who is where -/

/-- On a map there is somebody under an identity. -/
def Finds (w : World) (map : MapId) (k : EntityId) (e : Entity) : Prop :=
  ∃ g, w.region? map = some g ∧ g.find? k = some e

/-- Nobody is to be found twice. -/
theorem Sound.finds_unique (hw : w.Sound) {m' : MapId} (h : w.Finds m k e) (h' : w.Finds m' k o) :
    m = m' ∧ e = o := by
  obtain ⟨g, hg, he⟩ := h
  obtain ⟨g', hg', ho⟩ := h'
  obtain rfl := hw.map_eq hg he hg' ho
  obtain rfl := Option.some.inj (hg.symm.trans hg')
  exact ⟨rfl, Option.some.inj (he.symm.trans ho)⟩

/-- If one map has changed, whoever is found is on it, or is on another one and was found before. -/
theorem finds_update_iff {g : Region}
    (hregion : ∀ m', w'.region? m' = if m' = map then some g else w.region? m') :
    w'.Finds m k o ↔ (m = map ∧ g.find? k = some o) ∨ (m ≠ map ∧ w.Finds m k o) := by
  simp only [Finds, hregion]
  by_cases hm : m = map <;> simp [hm]

/-- Whoever is there after somebody has left was there before. -/
theorem finds_of_remove {cause : RemovalCause} (h : w.remove id cause = some (e, w'))
    (ho : w'.Finds m k o) : w.Finds m k o := by
  obtain ⟨map, g, leaving, g', -, hg, -, hrem, rfl⟩ := remove_eq_some_iff.mp h
  obtain ⟨rfl, hk⟩ | ⟨-, hk⟩ := (finds_update_iff fun _ => Table.getElem?_insert ..).mp ho
  · exact ⟨g, hg, (Region.find?_of_remove hrem hk).2⟩
  · exact hk

/-- Whoever is found after somebody has come was there before or is the newcomer. -/
theorem finds_of_welcome {x : PublicId} {g g' : Region} (h : w.Comes e x g g')
    (ho : (w.welcome e g').Finds m k o) : w.Finds m k o ∨ k = e.id ∧ o = e.arrived x := by
  obtain ⟨rfl, hk⟩ | ⟨-, hk⟩ := (finds_update_iff fun _ => Table.getElem?_insert ..).mp ho
  · obtain hnew | ⟨-, hk⟩ := Region.find?_mark_insert_cases h.insert hk
    · exact .inr hnew
    · exact .inl ⟨g, h.region, hk⟩
  · exact .inl hk

/-- After the turn of a map, what is there is what was there when the fixtures had worked. -/
theorem region?_turn {g : Region} (hid : g.id = map) (report : TickReport) :
    ∃ fixtures, ∀ m, (w.passRegion g report).2.region? m =
      if m = map then some ((w.worked g).region.fitted fixtures).clearChanges else w.region? m := by
  obtain ⟨fixtures, heq⟩ := w.passRegion_eq g report
  refine ⟨fixtures, fun m => ?_⟩
  rw [heq, ← (w.region_id_worked g).trans hid]
  exact Table.getElem?_insert ..

/-- Whoever is found after the turn of a map is on another map as before, or is there when the
fixtures have worked. -/
theorem finds_turn_iff {g : Region} (hid : g.id = map) (report : TickReport) :
    (w.passRegion g report).2.Finds m k o ↔ (m ≠ map ∧ w.Finds m k o) ∨
      (m = map ∧ ∃ e, (w.worked g).region.find? k = some e ∧ o = e.clearChanges) := by
  obtain ⟨fixtures, hregion⟩ := w.region?_turn hid report
  have hclear := Region.rewrites_clearChanges ((w.worked g).region.fitted fixtures)
  rw [finds_update_iff hregion, or_comm]
  refine or_congr_right (and_congr_right fun _ => ⟨fun hk => ?_, ?_⟩)
  · obtain ⟨e, he, rfl⟩ := hclear.back hk
    exact ⟨e, he, rfl⟩
  · rintro ⟨e, he, rfl⟩
    obtain ⟨e', he', rfl⟩ := hclear.forth he
    exact he'

/-! ### What can happen in a tick -/

/-- What can happen in a tick if only some entities may go elsewhere and only some maps have their
turn. -/
def Terms.during (J : EntityId → Prop) (T : MapId → Prop) : Terms :=
  { Terms.ofTick with jumps := J, turns := T }

/-- Whoever is found after a change in a tick was found before, or has just come from elsewhere, or
is on a map that has had its turn. -/
theorem Alters.finds_cases (h : Alters (.during J T) w w') (hw : w.Sound)
    (hlt : w'.issued < UInt32.size) (ho : w'.Finds m k o) :
    w.Finds m k o ∨ (J k ∧ o.changes.newOnMap = true) ∨
      (T m ∧ ((∃ e, w.Finds m k e) ∨ ¬ w.Issued k)) := by
  cases h with
  | @opens map plan =>
    obtain ⟨-, hk⟩ | ⟨-, hk⟩ := (finds_update_iff fun _ => Table.getElem?_insert ..).mp ho
    · simp [regionOfPlan, Region.empty, Region.find?] at hk
    · exact .inl hk
  | comes _ _ hkind => exact hkind.elim
  | leaves h => exact .inl (finds_of_remove h ho)
  | @jumps w₁ id e map p x g g' h h' hjumps =>
    refine (finds_of_welcome h' ho).imp (finds_of_remove h) ?_
    rintro ⟨rfl, rfl⟩
    have hid : e.id = id := (hw.issued_remove h).1
    exact .inl ⟨hid ▸ hjumps, Entity.newOnMap_arrived _ x⟩
  | @falls w₁ id e h =>
    refine .inl (finds_of_remove h ?_)
    revert ho
    rcases e.isPlayer <;> exact fun ho => ho
  | walks _ _ _ hwalks => exact hwalks.elim
  | attacks _ _ hattacks => exact hattacks.elim
  | @turns map g hg report hturns =>
    obtain ⟨-, hk⟩ | ⟨rfl, e, he, rfl⟩ := (finds_turn_iff (hw.region hg).1 report).mp ho
    · exact .inl hk
    · refine .inr (.inr ⟨hturns, ?_⟩)
      obtain ⟨e₀, r, he₀, -⟩ | ⟨hnew, -⟩ := w.stems_worked g hlt k e he
      · exact .inl ⟨e₀, g, hg, he₀⟩
      · exact .inr hnew
  | _ => exact .inl ho

/-! ### Being told of movement -/

/-- Between two worlds somebody is told of nobody's movement. -/
def Hushed (k : EntityId) (w w' : World) : Prop :=
  ∃ ms, w'.messagesFor k = w.messagesFor k ++ ms ∧
    ∀ m ∈ ms, ∀ entries, Notification.decode m.bytes ≠ .ok (.move entries)

theorem Hushed.trans (h : Hushed k u v) (h' : Hushed k v w) : Hushed k u w := by
  obtain ⟨ms, hms, hhushed⟩ := h
  obtain ⟨ms', hms', hhushed'⟩ := h'
  refine ⟨ms ++ ms', by rw [hms', hms, List.append_assoc], fun m hm => ?_⟩
  rcases List.mem_append.mp hm with hm | hm
  · exact hhushed m hm
  · exact hhushed' m hm

/-- It is enough to look at the messages that have been queued. -/
theorem hushed_of_outbox {ds : List Delivery} (h : w'.outbox = w.outbox ++ ds)
    (hds : ∀ d ∈ ds, ∃ n, Notification.decode d.message.bytes = .ok n ∧
      ∀ entries, n ≠ .move entries) : Hushed k w w' := by
  refine ⟨_, messagesFor_append h k, fun m hm entries hmove => ?_⟩
  obtain ⟨d, hd, rfl⟩ := List.mem_map.mp hm
  obtain ⟨n, hn, hne⟩ := hds d (List.mem_filter.mp hd).1
  exact hne entries (Except.ok.inj (hn.symm.trans hmove))

theorem hushed_of_outbox_eq (h : w'.outbox = w.outbox) : Hushed k w w' :=
  hushed_of_outbox (by rw [h, List.append_nil]) fun _ h => absurd h List.not_mem_nil

/-- Farewells do not tell of movement. -/
theorem hushed_remove {cause : RemovalCause} (h : w.remove id cause = some (e, w')) :
    Hushed k w w' := by
  obtain ⟨map, g, leaving, g', -, -, -, -, rfl⟩ := remove_eq_some_iff.mp h
  refine hushed_of_outbox rfl fun d hd => ?_
  rw [farewells] at hd
  split at hd
  · rename_i x _ _
    obtain ⟨p, -, rfl⟩ := List.mem_map.mp hd
    exact ⟨_, Notification.decode_leaveNotice x, by simp⟩
  · cases hd

/-- Arrivals do not tell of movement. -/
theorem hushed_welcome (w : World) (e : Entity) (g : Region) : Hushed k w (w.welcome e g) := by
  refine hushed_of_outbox rfl fun d hd => ?_
  rw [arrivals] at hd
  split at hd
  · split at hd
    · rename_i message hmessage
      rw [List.mem_singleton.mp hd]
      exact ⟨_, Notification.decode_mapNotice hmessage, by simp⟩
    · cases hd
  · cases hd

/-- Only who is on the map is told anything in the turn of a map. -/
theorem hushed_turn {g : Region} (hw : w.Sound) (hg : w.region? map = some g) (report : TickReport)
    (hlt : (w.passRegion g report).2.issued < UInt32.size) :
    Hushed k w (w.passRegion g report).2 ∨ ∃ o, (w.passRegion g report).2.Finds map k o := by
  obtain ⟨fixtures, heq⟩ := w.passRegion_eq g report
  have hissued : (w.passRegion g report).2.issued = (w.worked g).issued := by rw [heq]; rfl
  have hregion := hw.fitted_worked hg (hissued ▸ hlt) fixtures
  obtain hnil | ⟨p, hk, -⟩ := Region.messagesTo_synchronize_cases hregion.placed w.config.range k
  · refine .inl ⟨_, messagesFor_append (by rw [heq]; rfl) k, ?_⟩
    rw [hnil]
    exact fun m hm => absurd hm List.not_mem_nil
  · exact .inr ⟨_, (finds_turn_iff (hw.region hg).1 report).mpr (.inr ⟨rfl, p, hk, rfl⟩)⟩

/-- In a tick only those are told of movement whose maps have had their turn. -/
theorem Alters.hushed (h : Alters (.during J T) w w') (hw : w.Sound)
    (hlt : w'.issued < UInt32.size) (k : EntityId) :
    Hushed k w w' ∨ ∃ m o, T m ∧ w'.Finds m k o := by
  cases h with
  | comes _ _ hkind => exact hkind.elim
  | leaves h => exact .inl (hushed_remove h)
  | jumps h => exact .inl ((hushed_remove h).trans (hushed_welcome ..))
  | @falls w₁ id e h =>
    have hhushed : Hushed k w w₁ := hushed_remove h
    rcases e.isPlayer <;> exact .inl hhushed
  | speaks h ids =>
    refine .inl (hushed_of_outbox rfl fun d hd => ?_)
    obtain ⟨id, -, rfl⟩ := List.mem_map.mp hd
    exact ⟨_, Notification.decode_chatNotice h, by simp⟩
  | turns hg report hturns =>
    refine (hushed_turn hw hg report hlt).imp_right ?_
    rintro ⟨o, ho⟩
    exact ⟨_, o, hturns, ho⟩
  | _ => exact .inl (hushed_of_outbox_eq rfl)

/-! ### Before and after the turn of a map -/

/-- Before the turn of a map, nobody goes elsewhere who was there. -/
abbrev Waiting (m : MapId) (w : World) : World → World → Prop :=
  Develops (.during (fun id => w.mapOf id ≠ some m) (· ≠ m))

/-- After the turn of a map, other maps have their turns. -/
abbrev Done (m : MapId) : World → World → Prop := Develops (.during (fun _ => True) (· ≠ m))

/-- Before the turn of a map, whoever was there is there as it was or nowhere, and is told of nobody's
movement. -/
theorem finds_of_waiting (hw : w.Sound) (h : Waiting m w w v) (hlt : v.issued < UInt32.size)
    (hk : w.Finds m k o) :
    (∀ {m' e}, v.Finds m' k e → m' = m ∧ e = o) ∧ Hushed k w v ∧ v.Issued k := by
  have hmap : w.mapOf k = some m := by
    obtain ⟨g, hg, ho⟩ := hk
    exact hw.located.mpr ⟨g, o, hg, ho⟩
  refine hw.keeps (P := fun v => (∀ {m' e}, v.Finds m' k e → m' = m ∧ e = o) ∧ Hushed k w v ∧
    v.Issued k) h ?_ ⟨fun he => hw.finds_unique he hk, hushed_of_outbox_eq rfl, hw.issued hmap⟩ hlt
  intro v v' hv halters hlt ⟨honly, hhushed, hissued⟩
  have honly' {m' : MapId} {e : Entity} (he : v'.Finds m' k e) : m' = m ∧ e = o := by
    obtain he | ⟨hjumps, -⟩ | ⟨hturns, ⟨e', he'⟩ | hnew⟩ := halters.finds_cases hv hlt he
    · exact honly he
    · exact absurd hmap hjumps
    · exact absurd (honly he').1 hturns
    · exact absurd hissued hnew
  refine ⟨honly', ?_, hissued.of_le halters.issued_le⟩
  obtain hhushed' | ⟨m', e, hturns, he⟩ := halters.hushed hv hlt k
  · exact hhushed.trans hhushed'
  · exact absurd (honly' he).1 hturns

/-- Whoever is on a map after its turn, and is not new, was there when the turn was over, and has been
told of nobody's movement since. -/
theorem finds_of_done (hu : u.Sound) (h : Done m u v) (hlt : v.issued < UInt32.size)
    (hk : v.Finds m k o) (hnew : o.changes.newOnMap = false) : u.Finds m k o ∧ Hushed k u v := by
  refine hu.keeps (P := fun v => ∀ k o, v.Finds m k o → o.changes.newOnMap = false →
    u.Finds m k o ∧ Hushed k u v) h ?_ (fun k o hk _ => ⟨hk, hushed_of_outbox_eq rfl⟩) hlt k o hk hnew
  intro v v' hv halters hlt hprev k o hk hnew
  obtain hk' | ⟨-, hnew'⟩ | ⟨hturns, -⟩ := halters.finds_cases hv hlt hk
  · obtain ⟨hfinds, hhushed⟩ := hprev k o hk' hnew
    refine ⟨hfinds, ?_⟩
    obtain hhushed' | ⟨m', e, hturns, he⟩ := halters.hushed hv hlt k
    · exact hhushed.trans hhushed'
    · exact absurd ((hv.alters halters hlt).finds_unique he hk).1 hturns
  · exact absurd (hnew.symm.trans hnew') (by decide)
  · exact absurd rfl hturns

/-! ### A whole tick -/

/-- No warp waits. -/
def Unwarped (w : World) : Prop := ∀ id map p, .warp id map p ∉ w.deferred

theorem Unwarped.congr (hw : w.Unwarped) (h : w'.deferred = w.deferred) : w'.Unwarped := by
  rwa [Unwarped, h]

/-- Nothing that is asked of a world makes a warp wait. A tick does, and it is carried out in it. -/
theorem Unwarped.execute (hw : w.Unwarped) (c : Command) : (w.execute c).Unwarped := by
  by_cases hdeed : c.isDeed = true
  · obtain heq | ⟨map, g, id, f, -, -, heq⟩ | ⟨ds, heq⟩ := w.execute_deed_cases hdeed <;> rw [heq] <;>
      exact hw.congr rfl
  cases c with
  | walk | attack | say | announce => exact absurd rfl hdeed
  | activate map =>
    rw [World.execute]
    rcases h : w.activate map with err | ⟨g, w'⟩
    · exact hw
    · exact hw.congr (frame_activate h).deferred
  | allocate => exact hw
  | add e => exact hw.congr (w.deferred_add e)
  | enter name => exact hw.congr (deferred_add w.allocateId.2 _)
  | remove id cause =>
    rw [World.execute]
    rcases h : w.remove id cause with _ | ⟨e, w'⟩
    · exact hw
    · exact hw.congr (frame_remove h).deferred
  | queueRemoval id cause =>
    intro id' map p hmem
    obtain hmem | hmem := List.mem_append.mp hmem
    · exact hw id' map p hmem
    · cases List.mem_singleton.mp hmem
  | warp id map p => exact hw.congr (w.deferred_warp id map p)
  | tick =>
    intro id map p hmem
    have hmem : Deferred.warp id map p ∈ w.tick.2.deferred := hmem
    rw [deferred_tick] at hmem
    exact absurd hmem List.not_mem_nil

/-- Between two commands no warp waits. -/
theorem unwarped_of_reaches {config : WorldConfig} {atlas : Atlas} {admits : World → Command → Prop}
    (h : Reaches World.execute admits (empty config atlas) w) : w.Unwarped :=
  h.invariant (P := Unwarped) (fun _ _ _ hmem => absurd hmem List.not_mem_nil)
    fun _ c hw _ => hw.execute c

/-- After the pass of a map no warp waits. -/
theorem Unwarped.passMap (hv : v.Unwarped) (map : MapId) (report : TickReport) :
    (passMap map (report, v)).2.Unwarped :=
  fun id m p h => hv id m p (mem_deferred_passMap h)

/-- Whoever is put down for a warp in the turn of a map is a player that is there when the turn is
over. -/
theorem finds_of_sent (hv : v.Sound) (hunwarped : v.Unwarped) {g : Region}
    (hg : v.region? map = some g) (report : TickReport)
    (hlt : (v.passRegion g report).2.issued < UInt32.size) {target : MapId} {p : Point}
    (h : .warp id target p ∈ (v.worked g).deferred) :
    ∃ e, (v.passRegion g report).2.Finds map id e ∧ e.isPlayer = true := by
  obtain hmem | ⟨k, e, hk, rfl, hplayer⟩ := v.sendsItsOwn_worked g id target p h
  · exact absurd hmem (hunwarped id target p)
  · have hfinds : (v.passRegion g report).2.Finds map k e.clearChanges :=
      (finds_turn_iff (hv.region hg).1 report).mpr (.inr ⟨rfl, e, hk, rfl⟩)
    obtain ⟨g', hg', he⟩ := hfinds
    have hkey : e.clearChanges.id = k := ((hv.turn hg report hlt).region hg').2.placed.id_eq he
    have hsame : e.id = k := hkey
    rw [hsame]
    exact ⟨_, ⟨g', hg', he⟩, hplayer⟩

/-- The turn of another map sends nobody elsewhere who waits for the turn of this one. -/
theorem waiting_passMap (hw : w.Sound) (h : Waiting m w w v) (hunwarped : v.Unwarped)
    (hne : map ≠ m) (report : TickReport)
    (hlt : (passMap map (report, v)).2.issued < UInt32.size) :
    Waiting m w v (passMap map (report, v)).2 := by
  refine develops_passMap (fun g hg => ⟨hne, fun d hd => ?_⟩) report
  cases d with
  | remove id cause => exact fun _ => trivial
  | warp id target p =>
    -- whoever is put down is on the other map after its turn, and whoever waits is not
    intro hmap
    have hturn : Waiting m w v (v.passRegion g report).2 := .single (.turns hg report hne)
    have hsettle : Develops .ofTick (v.passRegion g report).2 (passMap map (report, v)).2 := by
      rw [passMap, hg]
      exact develops_settle_ofTick ..
    have hlt' := Nat.lt_of_le_of_lt hsettle.issued_le hlt
    have hv := hw.develops h (Nat.lt_of_le_of_lt hturn.issued_le hlt')
    obtain ⟨e, he, -⟩ := finds_of_sent hv hunwarped hg report hlt' hd
    obtain ⟨g₀, o, hg₀, ho⟩ := hw.located.mp hmap
    exact hne ((finds_of_waiting hw (h.trans hturn) hlt' ⟨g₀, hg₀, ho⟩).1 he).1

theorem done_passMap (hne : map ≠ m) (report : TickReport) : Done m v (passMap map (report, v)).2 :=
  develops_passMap (fun _ _ => ⟨hne, fun d _ =>
    Terms.mayApply (fun _ => trivial) (fun _ => trivial) d⟩) report

theorem done_settle (v : World) (m : MapId) (report : TickReport) : Done m v (v.settle report).2 :=
  develops_settle (fun d _ => Terms.mayApply (fun _ => trivial) (fun _ => trivial) d) report

/-- Where a tick is when some maps are still to have their turn: one of them, `m`, may be waiting for
it or may have had it. -/
def Midway (m : MapId) (w : World) (ms : List MapId) (v' : World) : Prop :=
  (m ∈ ms ∧ Waiting m w w v' ∧ v'.Unwarped) ∨
    (m ∉ ms ∧ ∃ v g report, Waiting m w w v ∧ v.region? m = some g ∧
      Done m (v.passRegion g report).2 v')

/-- A tick goes on by the pass of one more map. -/
theorem Midway.passMap {ms : List MapId} (h : Midway m w (map :: ms) v) (hw : w.Sound)
    (hm : (w.region? m).isSome) (hnodup : (map :: ms).Nodup) (report : TickReport)
    (hlt : (passMap map (report, v)).2.issued < UInt32.size) :
    Midway m w ms (passMap map (report, v)).2 := by
  obtain ⟨hmem, hwaiting, hunwarped⟩ | ⟨hnot, v₀, g, report₀, hwaiting, hg, hdone⟩ := h
  · by_cases hne : map = m
    · subst hne
      obtain ⟨g, hg⟩ := Option.isSome_iff_exists.mp <|
        hwaiting.keeps (P := fun v => (v.region? map).isSome) (fun h => h.isSome_region?) hm
      refine .inr ⟨(List.nodup_cons.mp hnodup).1, v, g, report, hwaiting, hg, ?_⟩
      rw [World.passMap, hg]
      exact done_settle _ map _
    · refine .inl ⟨(List.mem_cons.mp hmem).resolve_left (Ne.symm hne), ?_, hunwarped.passMap map report⟩
      exact hwaiting.trans (waiting_passMap hw hwaiting hunwarped hne report hlt)
  · obtain ⟨hne, hnot⟩ := not_or.mp (mt List.mem_cons.mpr hnot)
    exact .inr ⟨hnot, v₀, g, report₀, hwaiting, hg, hdone.trans (done_passMap (Ne.symm hne) report)⟩

/-- For a map in use, a tick is what happens before its turn, its turn, and what happens after it. -/
theorem exists_turn_of_tick (hw : w.Sound) (hunwarped : w.Unwarped)
    (hlt : w.tick.2.issued < UInt32.size) (hm : (w.region? m).isSome) :
    ∃ v g report, Waiting m w w v ∧ v.region? m = some g ∧
      Done m (v.passRegion g report).2 w.tick.2 := by
  obtain ⟨report, w', -, ⟨-, hmidway⟩, heq⟩ := hw.tick_eq_settle
    (I := fun ms v => ms.Nodup ∧ Midway m w ms v)
    (fun map ms v report _ ⟨hnodup, hmidway⟩ hlt =>
      ⟨(List.nodup_cons.mp hnodup).2, hmidway.passMap hw hm hnodup report hlt⟩)
    ⟨Std.ExtTreeMap.nodup_keys, .inl ⟨mem_keys_iff.mpr hm, .single (.notes ..), hunwarped⟩⟩ hlt
  have hend := done_settle w' m report
  rw [heq]
  obtain ⟨hmem, -⟩ | ⟨-, v, g, report, hwaiting, hg, hdone⟩ := hmidway
  · exact absurd hmem List.not_mem_nil
  · exact ⟨v, g, report, hwaiting, hg, hdone.trans hend⟩

end World

end TileWorld
