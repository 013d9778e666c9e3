import TileWorld.Proofs.World.Marks
import TileWorld.Proofs.World.Relocation

/-!
# What the scripts are told

The scripts are told of everybody that leaves a map, and of a death before the dead leaves. In a run
the calls balance with those that come onto maps (`World.hooks_of_records`): somebody has come once
more often than it has left if it is on a map, and just as often if it is on none. A warp counts as
leaving and coming, also if the entity is lost in between.

What one incident does to the balance is `World.Happens.tells`. Calls may be taken for the scripts at
any time, so a record of a run (`World.Records`) keeps those that have been taken.
-/

namespace TileWorld

open Relation

/-- The scripts are told that an entity has left its map. -/
def ScriptCall.tellsOf (id : EntityId) : ScriptCall → Bool
  | .removed e => e.id = id
  | .died _ => false

namespace World

variable {admits : World → Command → Prop} {config : WorldConfig} {atlas : Atlas}
  {u v v' v'' w w' : World} {map : MapId} {id : EntityId} {e : Entity} {g g' : Region} {x : PublicId}
  {cause : RemovalCause} {past later : List Incident} {i : Incident} {d : Deferred}
  {taken : List ScriptCall} {ids ids' : List EntityId} {cs cs' : List ScriptCall}

/-! ### Who comes and who leaves -/

/-- Who comes onto a map when a change is carried out. -/
def comingsOf (v : World) : Deferred → List EntityId
  | .remove _ _ => []
  | .warp id map p => if (v.warp id map p).1.isOk then [id] else []

/-- Who leaves its map when a change is carried out, and why. -/
def exit? (v : World) : Deferred → Option (Entity × RemovalCause)
  | .remove id cause => (v.remove id cause).map fun r => (r.1, cause)
  | .warp id map p =>
    if v.HasPlace map p then (v.remove id .warp).map fun r => (r.1, .warp) else none

/-- The world in which an incident happens. -/
def Incident.world : Incident → World
  | .asked u _ => u
  | .amid (.turn v _) => v
  | .amid (.change v _) => v

/-- Who comes onto a map in an incident. -/
def Incident.comings : Incident → List EntityId
  | .asked u (.add e) => if (u.add e).1.isOk then [e.id] else []
  | .asked u (.enter name) => ((u.enter name).1.toOption.map Prod.fst).toList
  | .amid (.turn v g) => ((v.books g).raised g.fixtures).flatMap Option.toList
  | i => (i.change?.map fun (v, d) => v.comingsOf d).getD []

/-- Who leaves its map in an incident, and why. -/
def Incident.exit? (i : Incident) : Option (Entity × RemovalCause) :=
  i.change?.bind fun (v, d) => v.exit? d

/-- What the scripts are told of somebody who leaves its map. -/
def callsFor (e : Entity) (cause : RemovalCause) : List ScriptCall :=
  (if cause = .death then [.died e] else []) ++ [.removed e]

/-- What the scripts are told in an incident. -/
def Incident.calls (i : Incident) : List ScriptCall :=
  (i.exit?.map fun (e, cause) => callsFor e cause).getD []

/-! ### The balance -/

/-- How often somebody is on a map. -/
def presence (w : World) (id : EntityId) : Nat := if (w.mapOf id).isSome then 1 else 0

/-- Those in `ids` come onto maps, and the scripts are told of those that leave. -/
structure Tells (v : World) (ids : List EntityId) (cs : List ScriptCall) (v' : World) : Prop where
  balance : ∀ id, v.presence id + ids.count id = cs.countP (·.tellsOf id) + v'.presence id
  calls : v'.calls = v.calls ++ cs

theorem tells_of_eq (hlocations : v'.locations = v.locations) (hcalls : v'.calls = v.calls) :
    Tells v [] [] v' where
  balance id := by simp [presence, mapOf, hlocations]
  calls := by rw [hcalls, List.append_nil]

theorem Tells.trans (h : Tells v ids cs v') (h' : Tells v' ids' cs' v'') :
    Tells v (ids ++ ids') (cs ++ cs') v'' where
  balance id := by
    have hfirst := h.balance id
    have hthen := h'.balance id
    rw [List.count_append, List.countP_append]
    omega
  calls := by rw [h'.calls, h.calls, List.append_assoc]

theorem tells_activate (h : v.activate map = .ok (g, v')) : Tells v [] [] v' := by
  obtain ⟨-, rfl⟩ | ⟨-, plan, -, rfl, -⟩ := activate_eq_ok_iff.mp h <;> exact tells_of_eq rfl rfl

theorem calls_of_remove (h : v.remove id cause = some (e, v')) :
    v'.calls = v.calls ++ callsFor e cause := by
  obtain ⟨map, g, leaving, g', -, -, -, -, rfl⟩ := remove_eq_some_iff.mp h
  exact List.append_assoc ..

/-- The scripts are told once of somebody who leaves, and of nobody else. -/
theorem countP_callsFor (e : Entity) (cause : RemovalCause) (k : EntityId) :
    (callsFor e cause).countP (·.tellsOf k) = if k = e.id then 1 else 0 := by
  by_cases hk : k = e.id
  · cases cause <;> simp [callsFor, ScriptCall.tellsOf, hk]
  · cases cause <;> simp [callsFor, ScriptCall.tellsOf, hk, Ne.symm hk]

/-- Whoever comes has been on no map. -/
theorem tells_welcome (h : v.Comes e x g g') : Tells v [e.id] [] (v.welcome e g') where
  balance k := by
    rw [presence, presence, mapOf_welcome]
    by_cases hk : k = e.id
    · subst hk
      simp [h.free]
    · simp [hk, Ne.symm hk]
  calls := (List.append_nil _).symm

/-- Whoever leaves has been on a map, and the scripts are told of it. -/
theorem Orderly.tells_remove (hv : v.Orderly) (h : v.remove id cause = some (e, v')) :
    Tells v [] (callsFor e cause) v' where
  balance k := by
    obtain ⟨map, -, -, -, hmap, -⟩ := remove_eq_some_iff.mp h
    rw [countP_callsFor, hv.id_of_remove h, presence, presence, mapOf_of_remove h]
    by_cases hk : k = id
    · subst hk
      simp [hmap]
    · simp [hk]
  calls := calls_of_remove h

/-- An entity that is let in comes, and the scripts are told nothing. -/
theorem tells_add (v : World) (e : Entity) :
    Tells v (if (v.add e).1.isOk then [e.id] else []) [] (v.add e).2 := by
  obtain ⟨err, h⟩ | ⟨-, g, v₁, hact, ⟨err, h⟩ | ⟨x, g', hcomes, h⟩⟩ := v.add_cases e <;> rw [h]
  · exact tells_of_eq rfl rfl
  · exact tells_activate hact
  · exact (tells_activate hact).trans (tells_welcome hcomes)

/-- Who is to leave does not depend on which maps are in use. -/
theorem remove_of_activate (hact : v.activate map = .ok (g, v'))
    (h : v.remove id cause = some (e, w)) : ∃ w', v'.remove id cause = some (e, w') := by
  obtain ⟨m, q, leaving, q', hm, hq, hleaving, hrem, -⟩ := remove_eq_some_iff.mp h
  refine ⟨_, remove_eq_some_iff.mpr ⟨m, q, leaving, q', ?_, ?_, hleaving, hrem, rfl⟩⟩
  · rwa [mapOf, locations_activate hact]
  · obtain ⟨-, rfl⟩ | ⟨hnone, plan, -, rfl, -⟩ := activate_eq_ok_iff.mp hact
    · exact hq
    · have hne : m ≠ map := by
        rintro rfl
        rw [hnone] at hq
        cases hq
      exact (Table.getElem?_insert ..).trans ((if_neg hne).trans hq)

/-- A warp that lets nobody leave comes to nothing. Otherwise the target comes into use, the entity
leaves its map as it was there before, and it is lost or comes to the target. -/
theorem Orderly.exit?_warp_cases (hv : v.Orderly) (id : EntityId) (map : MapId) (p : Point) :
    (v.exit? (.warp id map p) = none ∧ ∃ err v', v.warp id map p = (.error err, v') ∧
      (v' = v ∨ ∃ g, v.activate map = .ok (g, v'))) ∨
    ∃ g v₁ e v₂, v.exit? (.warp id map p) = some (e, .warp) ∧ v.activate map = .ok (g, v₁) ∧
      v₁.remove id .warp = some (e, v₂) ∧
        ((∃ err, v.warp id map p =
            (.error err, if e.isPlayer then { v₂ with lost := v₂.lost ++ [id] } else v₂)) ∨
          ∃ x g₂ g', v₂.Comes (e.place map p) x g₂ g' ∧
            v.warp id map p = (.ok x, v₂.welcome (e.place map p) g')) := by
  rw [exit?]
  obtain ⟨hgoes, hwarp⟩ | ⟨hid, hplace, g, v₁, e, v₂, hact, hrem₁, hends⟩ :=
    hv.toHoused.warp_cases id map p
  · refine .inl ⟨?_, hwarp⟩
    obtain hnone | hno := hgoes
    · rw [hv.toHoused.remove_eq_none_iff.mpr hnone, Option.map_none, ite_self]
    · rw [if_neg hno]
  · -- that the target comes into use makes no difference to who leaves
    obtain ⟨e', v', hrem⟩ := hv.toHoused.exists_remove (contains_locations.mpr hid) .warp
    obtain ⟨v₂', hrem'⟩ := remove_of_activate hact hrem
    obtain ⟨rfl, rfl⟩ : e = e' ∧ v₂ = v₂' := by simpa [hrem₁] using hrem'
    refine .inr ⟨g, v₁, e, v₂, ?_, hact, hrem₁, hends⟩
    rw [if_pos hplace, hrem, Option.map_some]

/-- Whoever goes to another place leaves its map and then comes, or it leaves and is lost. -/
theorem Orderly.tells_applyOne (hv : v.Orderly) (d : Deferred) :
    Tells v (v.comingsOf d) (((v.exit? d).map fun (e, cause) => callsFor e cause).getD [])
      (v.applyOne d).2 := by
  cases d with
  | remove id cause =>
    rw [comingsOf, exit?, applyOne]
    rcases hrem : v.remove id cause with _ | ⟨e, v'⟩
    · exact tells_of_eq rfl rfl
    · exact hv.tells_remove hrem
  | warp id map p =>
    rw [comingsOf, snd_applyOne_warp]
    obtain ⟨hexit, err, v', hwarp, hv'⟩ | ⟨g, v₁, e, v₂, hexit, hact, hrem, hends⟩ :=
      hv.exit?_warp_cases id map p
    · rw [hexit, hwarp]
      obtain rfl | ⟨g, hact⟩ := hv'
      · exact tells_of_eq rfl rfl
      · exact tells_activate hact
    · have hv₁ : v₁.Orderly := hv.develops (develops_activate (t := {}) hact)
      have hleaves := (tells_activate hact).trans (hv₁.tells_remove hrem)
      rw [hexit]
      obtain ⟨err, hwarp⟩ | ⟨x, g₂, g', hcomes, hwarp⟩ := hends <;> rw [hwarp]
      · refine hleaves.trans (?_ : Tells v₂ [] [] _)
        split <;> exact tells_of_eq rfl rfl
      · have hid' : e.id = id := hv₁.id_of_remove hrem
        have hcame := hleaves.trans (tells_welcome hcomes)
        rw [show (e.place map p).id = id from hid'] at hcame
        exact hcame

/-- In its turn a map loses nobody, and those come onto it whom its fixtures bring up. -/
theorem Sound.tells_turn (hv : v.Sound) (report : TickReport)
    (hlt : (v.passRegion g report).2.issued < UInt32.size) :
    Tells v (((v.books g).raised g.fixtures).flatMap Option.toList) []
      (v.passRegion g report).2 where
  balance k := by
    have hroll := v.roll_worked g hlt
    generalize ((v.books g).raised g.fixtures).flatMap Option.toList = ids at hroll
    have hlisted := hroll.listed k
    have hpresence : (v.passRegion g report).2.presence k =
      if ((v.worked g).locations[k]?).isSome then 1 else 0 := rfl
    rw [hpresence, List.countP_nil, Nat.zero_add, presence]
    by_cases hk : k ∈ ids
    · have hnew : ¬ (v.mapOf k).isSome = true := fun h => (hroll.fresh k hk).1 (hv.issued_of_resides h)
      rw [if_neg hnew, if_pos (hlisted.mpr (.inr hk)),
        List.count_eq_one_of_mem hroll.nodup hk]
    · have hsame : ((v.worked g).locations[k]?).isSome ↔ (v.mapOf k).isSome := by
        rw [hlisted, or_iff_left hk, Resides]
      rw [List.count_eq_zero_of_not_mem hk, Nat.add_zero]
      exact (if_congr hsame rfl rfl).symm
  calls := (List.append_nil _).symm

/-- A character that is let in comes, and the scripts are told nothing. -/
theorem tells_enter (v : World) (name : String) :
    Tells v ((v.enter name).1.toOption.map Prod.fst).toList [] (v.enter name).2 := by
  obtain ⟨v₁, hopens, hends⟩ := v.enter_steps name
  have hissues : Tells v [] [] v.allocateId.2 := tells_of_eq rfl rfl
  have hfirst : Tells v [] [] v₁ := by
    obtain rfl | ⟨g, hact⟩ := hopens
    · exact hissues
    · exact hissues.trans (tells_activate hact)
  obtain ⟨err, h⟩ | ⟨e, x, g, g', hcomes, -, -, -, -, h⟩ := hends <;> rw [h]
  · exact hfirst
  · exact hfirst.trans (tells_welcome hcomes)

/-- Nobody comes or leaves when nobody is asked to. -/
theorem Orderly.tells_execute (hv : v.Orderly) {c : Command} (hne : c ≠ .tick) :
    Tells v (Incident.asked v c).comings (Incident.asked v c).calls (v.execute c) := by
  have hsame {v' : World} (hlocations : v'.locations = v.locations) (hcalls : v'.calls = v.calls) :
      Tells v [] [] v' := tells_of_eq hlocations hcalls
  by_cases hdeed : c.isDeed = true
  · have hnobody : (Incident.asked v c).comings = [] ∧ (Incident.asked v c).calls = [] := by
      cases c with
      | walk | attack | say | announce => exact ⟨rfl, rfl⟩
      | _ => cases hdeed
    rw [hnobody.1, hnobody.2]
    obtain heq | ⟨map, g, id, f, -, -, heq⟩ | ⟨ds, heq⟩ := v.execute_deed_cases hdeed <;> rw [heq] <;>
      exact hsame rfl rfl
  cases c with
  | walk | attack | say | announce => exact absurd rfl hdeed
  | tick => exact absurd rfl hne
  | allocate | queueRemoval => exact hsame rfl rfl
  | activate map =>
    rw [execute]
    rcases hact : v.activate map with err | ⟨g, v'⟩
    · exact hsame rfl rfl
    · exact tells_activate hact
  | add e => exact tells_add v e
  | enter name => exact tells_enter v name
  | remove id cause =>
    rw [execute_remove]
    exact hv.tells_applyOne (.remove id cause)
  | warp id map p =>
    rw [show v.execute (.warp id map p) = _ from (v.snd_applyOne_warp id map p).symm]
    exact hv.tells_applyOne (.warp id map p)

/-- What an incident does to the balance. -/
theorem Happens.tells (h : Happens admits i v v') (hv : v.Sound) (hlt : v'.issued < UInt32.size) :
    Tells v i.comings i.calls v' := by
  cases h with
  | asked _ hne => exact hv.orderly.tells_execute hne
  | turn _ report => exact hv.tells_turn report hlt
  | change _ d => exact hv.orderly.tells_applyOne d

/-- Of somebody who leaves its map the scripts are told as it was there, but without a public id. -/
structure Incident.Parts (i : Incident) (e : Entity) : Prop where
  publicId : e.publicId = none
  mapOf : i.world.mapOf e.id = some e.map
  finds : ∃ x, i.world.Finds e.map e.id { e with publicId := some x }

/-- An incident happens in the world that it names. -/
theorem Happens.world_eq (h : Happens admits i v v') : i.world = v := by cases h <;> rfl

theorem Incident.world_of_change? (h : i.change? = some (u, d)) : i.world = u := by
  rcases i with ⟨u, c⟩ | _ | _
  · cases c <;> cases h <;> rfl
  · cases h
  · cases h
    rfl

/-- Whoever leaves its map in a change can be removed. -/
theorem Orderly.exists_remove_of_exit? (hv : v.Orderly) (h : v.exit? d = some (e, cause)) :
    ∃ v', v.remove e.id cause = some (e, v') := by
  have hremoves {id : EntityId} {cause' : RemovalCause}
      (h : ((v.remove id cause').map fun r => (r.1, cause')) = some (e, cause)) :
      ∃ v', v.remove e.id cause = some (e, v') := by
    obtain ⟨⟨e', v'⟩, hrem, heq⟩ := Option.map_eq_some_iff.mp h
    cases heq
    exact ⟨v', by rw [hv.id_of_remove hrem, hrem]⟩
  cases d with
  | remove id cause' => exact hremoves h
  | warp id map p =>
    rw [World.exit?] at h
    split at h
    · exact hremoves h
    · cases h

/-- The scripts are told of whoever leaves its map in an incident. -/
theorem Happens.parts (h : Happens admits i v v') (hv : v.Orderly) (hexit : i.exit? = some (e, cause)) :
    i.Parts e := by
  obtain ⟨⟨u, d⟩, hchange, hexit⟩ := Option.bind_eq_some_iff.mp hexit
  obtain rfl : u = v := (Incident.world_of_change? hchange).symm.trans h.world_eq
  obtain ⟨u', hrem⟩ := hv.exists_remove_of_exit? hexit
  obtain ⟨map, q, x, -, hmap, hq, rfl, hx, -⟩ := hv.removes hrem
  have hq_map : q.map = map := by
    obtain ⟨g, hg, hq⟩ := hq
    exact ((hv.region hg).placed.map_eq hq).trans (hv.id_eq hg)
  subst hq_map
  refine ⟨rfl, ?_, x, ?_⟩ <;> rw [h.world_eq]
  · exact hmap
  · rw [← hx]
    exact hq

/-! ### Whole runs -/

/-- One incident after the other. -/
theorem Unfolds.tells (h : Unfolds Allows u past v) (hu : u.Sound) (hlt : v.issued < UInt32.size) :
    Tells u (past.flatMap Incident.comings) (past.flatMap Incident.calls) v ∧
      ∀ i ∈ past, ∀ e cause, i.exit? = some (e, cause) → i.Parts e := by
  induction h with
  | nil => exact ⟨tells_of_eq rfl rfl, by simp⟩
  | notes _ deferred ticks ih =>
    obtain ⟨htells, hparts⟩ := ih hlt
    exact ⟨⟨htells.balance, htells.calls⟩, hparts⟩
  | @step past i v v' h hi ih =>
    have hlt' := Nat.lt_of_le_of_lt hi.develops_allowed.issued_le hlt
    have hv := hu.develops h.develops_allowed hlt'
    obtain ⟨htells, hparts⟩ := ih hlt'
    have hthen := hi.tells hv hlt
    simp only [List.flatMap_append, List.flatMap_singleton]
    refine ⟨htells.trans hthen, fun j hj => ?_⟩
    obtain hj | hj := List.mem_append.mp hj
    · exact hparts j hj
    · rw [List.mem_singleton.mp hj]
      exact fun e cause => hi.parts hv.orderly

/-- All that happens when something is done with a world. -/
def incidentsOf (w : World) : Operation → List Incident
  | .ask c => w.incidents c
  | _ => []

/-- The calls that are taken for the scripts when something is done with a world. -/
def callsTaken (w : World) : Operation → List ScriptCall
  | .takeCalls => w.takeCalls.1
  | _ => []

/-- The worlds that come about from `u` when something is done with them, with all that has happened on
the way and all the calls that have been taken for the scripts. -/
inductive Records (u : World) : List Incident → List ScriptCall → World → Prop where
  /-- Nothing has been done yet. -/
  | start : Records u [] [] u
  /-- Something more is done. -/
  | step {past : List Incident} {taken : List ScriptCall} {w : World} (h : Records u past taken w)
    (o : Operation) (ho : w.Permits o) :
    Records u (past ++ w.incidentsOf o) (taken ++ w.callsTaken o) (w.perform o)

/-- Just those worlds have a record that can be reached. -/
theorem exists_records_iff :
    (∃ past taken, Records u past taken w) ↔ Reaches perform Permits u w := by
  constructor
  · rintro ⟨past, taken, h⟩
    induction h with
    | start => exact .refl
    | step _ o ho ih => exact ih.step o ho
  · intro h
    induction h with
    | refl => exact ⟨[], [], .start⟩
    | step _ o ho ih =>
      obtain ⟨past, taken, h⟩ := ih
      exact ⟨_, _, h.step o ho⟩

theorem unfolds_incidents {c : Command} (hc : v.Allows c) :
    Unfolds Allows v (v.incidents c) (v.execute c) :=
  (History.start.step c hc).unfolds

/-- The calls of a run balance with all that has happened in it. -/
structure Accords (past : List Incident) (cs : List ScriptCall) (w : World) : Prop where
  balance : ∀ id, (past.flatMap Incident.comings).count id =
    cs.countP (·.tellsOf id) + w.presence id
  calls : cs = past.flatMap Incident.calls
  parts : ∀ i ∈ past, ∀ e cause, i.exit? = some (e, cause) → i.Parts e

/-- Calls balance with what has happened as long as each incident balances. -/
theorem Accords.append (h : Accords past cs w)
    (htells : Tells w (later.flatMap Incident.comings) (later.flatMap Incident.calls) w')
    (hparts : ∀ i ∈ later, ∀ e cause, i.exit? = some (e, cause) → i.Parts e) :
    Accords (past ++ later) (cs ++ later.flatMap Incident.calls) w' where
  balance id := by
    have hfirst := h.balance id
    have hthen := htells.balance id
    rw [List.flatMap_append, List.count_append, List.countP_append]
    omega
  calls := by rw [List.flatMap_append, ← h.calls]
  parts i hi := (List.mem_append.mp hi).elim (h.parts i) (hparts i)

/-- Whatever is done with a world, the calls that have been taken and those that wait balance with what
has happened. -/
theorem Records.accords (h : Records (empty config atlas) past taken w)
    (hlt : w.issued < UInt32.size) : Accords past (taken ++ w.calls) w := by
  induction h with
  | start => exact ⟨fun id => by simp [presence, empty, mapOf], rfl, by simp⟩
  | @step past taken w h o ho ih =>
    cases o with
    | ask c =>
      have hlt' := Nat.lt_of_le_of_lt (Allows.develops ho).issued_le hlt
      have hw : w.Sound := (sound_of_performed (exists_records_iff.mp ⟨_, _, h⟩)).1 hlt'
      obtain ⟨htells, hparts⟩ := (unfolds_incidents ho).tells hw hlt
      have hcalls : taken ++ w.callsTaken (.ask c) ++ (w.execute c).calls =
          taken ++ w.calls ++ (w.incidents c).flatMap Incident.calls := by
        rw [show w.callsTaken (.ask c) = [] from rfl, htells.calls, List.append_nil,
          List.append_assoc]
      rw [World.perform, hcalls]
      exact (ih hlt').append htells hparts
    | takeDeliveries | takeLost =>
      have hsame := ih hlt
      simp only [incidentsOf, callsTaken, List.append_nil]
      exact ⟨hsame.balance, hsame.calls, hsame.parts⟩
    | takeCalls =>
      have hsame := ih hlt
      have hcalls : taken ++ w.callsTaken .takeCalls ++ (w.perform .takeCalls).calls =
          taken ++ w.calls := List.append_nil _
      rw [hcalls, show w.incidentsOf .takeCalls = [] from rfl, List.append_nil]
      exact ⟨hsame.balance, hsame.calls, hsame.parts⟩

/-! ### Deaths -/

/-- Each time that the scripts are told of a death, the next thing that they are told is that the dead
has left. -/
def DeathsAreNext (cs : List ScriptCall) : Prop :=
  ∀ before e after, cs = before ++ .died e :: after → ∃ rest, after = .removed e :: rest

theorem DeathsAreNext.append (h : DeathsAreNext cs) (h' : DeathsAreNext cs') :
    DeathsAreNext (cs ++ cs') := by
  intro before e after heq
  obtain ⟨l, rfl, hl⟩ | ⟨l, hcs, hl⟩ := List.append_eq_append_iff.mp heq
  · exact h' l e after hl
  · rcases l with _ | ⟨c, l⟩
    · exact h' [] e after hl.symm
    · obtain ⟨rfl, rfl⟩ := List.cons.inj hl
      obtain ⟨rest, rfl⟩ := h before e l hcs
      exact ⟨rest ++ cs', rfl⟩

theorem deathsAreNext_callsFor (e : Entity) (cause : RemovalCause) :
    DeathsAreNext (callsFor e cause) := by
  intro before o after heq
  rcases before with _ | ⟨c, before⟩
  · by_cases hcause : cause = .death
    · simp only [callsFor, hcause, if_true, List.singleton_append, List.nil_append, List.cons.injEq,
        ScriptCall.died.injEq] at heq
      obtain ⟨rfl, rfl⟩ := heq
      exact ⟨[], rfl⟩
    · simp [callsFor, hcause] at heq
  · -- what comes after the first call is no death
    have hlater : .died o ∈ (callsFor e cause).tail := by
      rw [heq]
      simp
    cases cause <;> simp [callsFor] at hlater

theorem deathsAreNext_calls (past : List Incident) : DeathsAreNext (past.flatMap Incident.calls) := by
  have hnil : DeathsAreNext [] := fun before e after heq => by simp at heq
  induction past with
  | nil => exact hnil
  | cons i past ih =>
    refine DeathsAreNext.append ?_ ih
    rw [Incident.calls]
    rcases i.exit? with _ | ⟨e, cause⟩
    · exact hnil
    · exact deathsAreNext_callsFor e cause

/-- Whatever is done with a world, and whoever is meant: as often as it has come onto a map, the scripts
have been told that it has left one, and once less if it is on a map. What the scripts have been told is
what the incidents say one after the other: of a removal that came about, or of the first half of a
warp, that the entity has left the map on which it was, without a public id, and if the cause was death
that it has died, immediately before. -/
theorem hooks_of_records (h : Records (empty config atlas) past taken w)
    (hlt : w.issued < UInt32.size) :
    (∀ id, (past.flatMap Incident.comings).count id =
      (taken ++ w.calls).countP (·.tellsOf id) + if (w.mapOf id).isSome then 1 else 0) ∧
    taken ++ w.calls = past.flatMap Incident.calls ∧
    (∀ i ∈ past, ∀ e cause, i.exit? = some (e, cause) → e.publicId = none ∧
      i.world.mapOf e.id = some e.map ∧
        ∃ x, i.world.Finds e.map e.id { e with publicId := some x }) ∧
    DeathsAreNext (taken ++ w.calls) := by
  have haccords := h.accords hlt
  refine ⟨haccords.balance, haccords.calls, fun i hi e cause hexit => ?_, ?_⟩
  · have hparts := haccords.parts i hi e cause hexit
    exact ⟨hparts.publicId, hparts.mapOf, hparts.finds⟩
  · rw [haccords.calls]
    exact deathsAreNext_calls past

/-! ### An example -/

/-- Ann has died, the scripts have been told, and Ben has gone to another place. -/
def funeral : World :=
  [.ask (.enter "Ann"), .ask (.enter "Ben"), .ask (.remove (.nth 1) .death), .takeCalls,
    .ask (.warp (.nth 2) ⟨1⟩ ⟨320, 320⟩)].foldl perform (empty {} outpost)

/-- Ann has come once and is on no map, and Ben has come twice and is on one. -/
theorem hooks_at_funeral : ∃ past taken, Records (empty {} outpost) past taken funeral ∧
    (past.flatMap Incident.comings).count (.nth 1) = 1 ∧
    (past.flatMap Incident.comings).count (.nth 2) = 2 ∧ DeathsAreNext (taken ++ funeral.calls) := by
  obtain ⟨past, taken, hrecord, hcounts⟩ : ∃ past taken,
      Records (empty {} outpost) past taken funeral ∧
        ((taken ++ funeral.calls).countP (·.tellsOf (.nth 1)),
          (taken ++ funeral.calls).countP (·.tellsOf (.nth 2))) = (1, 1) :=
    ⟨_, _, .step (.step (.step (.step (.step .start (.ask (.enter "Ann")) trivial)
      (.ask (.enter "Ben")) trivial) (.ask (.remove (.nth 1) .death)) trivial) .takeCalls trivial)
        (.ask (.warp (.nth 2) ⟨1⟩ ⟨320, 320⟩)) trivial, by cbv⟩
  have hfacts : (funeral.issued, funeral.mapOf (.nth 1), funeral.mapOf (.nth 2)) =
      (2, none, some ⟨1⟩) := by cbv
  simp only [Prod.mk.injEq] at hcounts hfacts
  obtain ⟨hissued, hann, hben⟩ := hfacts
  obtain ⟨hbalance, -, -, hdeaths⟩ := hooks_of_records hrecord (by rw [hissued]; decide)
  refine ⟨past, taken, hrecord, ?_, ?_, hdeaths⟩
  · rw [hbalance, hcounts.1, hann]
    rfl
  · rw [hbalance, hcounts.2, hben]
    rfl

end World

end TileWorld
