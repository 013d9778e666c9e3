import TileWorld.Proofs.World.Balance
import TileWorld.Proofs.World.Order

/-!
# The history of a run

What has happened in a run is a list of incidents (`World.History`): something was asked of the
world, or a map had its turn in a tick, or a change that had waited was carried out. One incident
after the other leads to the world that the run has reached (`World.History.unfolds`), and a history
can be cut before any of its incidents (`World.Unfolds.split`). In a tick each map in use has its
turn once (`World.exists_turn_of_moments`).
-/

namespace TileWorld

open Relation

/-- A list that has grown by one item can be cut at the new item or at an earlier one. -/
theorem append_singleton_eq_iff {α : Type} {l before after : List α} {i j : α} :
    l ++ [j] = before ++ i :: after ↔ (before = l ∧ i = j ∧ after = []) ∨
      ∃ after', after = after' ++ [j] ∧ l = before ++ i :: after' := by
  constructor
  · intro h
    rcases after.eq_nil_or_concat with rfl | ⟨after, j', rfl⟩
    · obtain ⟨rfl, hlast⟩ := List.append_inj' h rfl
      cases hlast
      exact .inl ⟨rfl, rfl, rfl⟩
    · rw [List.concat_eq_append, ← List.cons_append, ← List.append_assoc] at h
      obtain ⟨hbefore, hlast⟩ := List.append_inj' h rfl
      cases hlast
      exact .inr ⟨after, List.concat_eq_append, hbefore⟩
  · rintro (⟨rfl, rfl, rfl⟩ | ⟨after, rfl, rfl⟩)
    · rfl
    · simp

namespace World

variable {t : Terms} {admits : World → Command → Prop} {u v v' w : World} {m : MapId}
  {past later : List Incident} {g : Region}

/-! ### Histories -/

/-- Something that happens to a world. -/
inductive Incident where
  /-- Something other than a tick is asked of the world. -/
  | asked (u : World) (c : Command)
  /-- A tick has come to one of its moments. -/
  | amid (moment : Moment)

/-- What happens when something is asked of a world: a tick goes from moment to moment. -/
def incidents (w : World) : Command → List Incident
  | .tick => w.moments.map .amid
  | c => [.asked w c]

/-- The worlds that come about from `u`, with all that has happened on the way. -/
inductive History (admits : World → Command → Prop) (u : World) : List Incident → World → Prop where
  /-- Nothing has happened yet. -/
  | start : History admits u [] u
  /-- Something more is asked. -/
  | step {past : List Incident} {w : World} (h : History admits u past w) (c : Command)
    (hc : admits w c) : History admits u (past ++ w.incidents c) (w.execute c)

/-- Just those worlds have a history that can be reached. -/
theorem exists_history_iff : (∃ past, History admits u past w) ↔ Reaches execute admits u w := by
  constructor
  · rintro ⟨past, h⟩
    induction h with
    | start => exact .refl
    | step _ c hc ih => exact ih.step c hc
  · intro h
    induction h with
    | refl => exact ⟨[], .start⟩
    | step _ c hc ih =>
      obtain ⟨past, hpast⟩ := ih
      exact ⟨_, hpast.step c hc⟩

/-! ### One incident after the other -/

/-- An incident leads from the world in which it happens to another one. -/
inductive Happens (admits : World → Command → Prop) : Incident → World → World → Prop where
  /-- Something other than a tick is asked. -/
  | asked {v : World} {c : Command} (hc : admits v c) (hne : c ≠ .tick) :
    Happens admits (.asked v c) v (v.execute c)
  /-- A map in use has its turn. -/
  | turn {v : World} {map : MapId} {g : Region} (hg : v.region? map = some g) (report : TickReport) :
    Happens admits (.amid (.turn v g)) v (v.passRegion g report).2
  /-- A change is carried out. -/
  | change (v : World) (d : Deferred) : Happens admits (.amid (.change v d)) v (v.applyOne d).2

/-- Incidents lead from one world to another, one after the other. In between the clock goes on, and
what waits for the end of a pass is taken down or taken up. -/
inductive Unfolds (admits : World → Command → Prop) (u : World) : List Incident → World → Prop where
  /-- Nothing happens. -/
  | nil : Unfolds admits u [] u
  /-- The clock goes on. -/
  | notes {past : List Incident} {v : World} (h : Unfolds admits u past v)
    (deferred : List Deferred) (ticks : Nat) : Unfolds admits u past { v with deferred, ticks }
  /-- One more incident. -/
  | step {past : List Incident} {i : Incident} {v v' : World} (h : Unfolds admits u past v)
    (hi : Happens admits i v v') : Unfolds admits u (past ++ [i]) v'

namespace Unfolds

theorem single {i : Incident} (hi : Happens admits i u v) : Unfolds admits u [i] v := nil.step hi

theorem trans (h : Unfolds admits u past v) (h' : Unfolds admits v later w) :
    Unfolds admits u (past ++ later) w := by
  induction h' with
  | nil => rwa [List.append_nil]
  | notes _ deferred ticks ih => exact ih.notes deferred ticks
  | step _ hi ih =>
    rw [← List.append_assoc]
    exact ih.step hi

/-- A history can be cut before any incident and after it. -/
theorem split {i : Incident} (h : Unfolds admits u (past ++ i :: later) w) :
    ∃ v v', Unfolds admits u past v ∧ Happens admits i v v' ∧ Unfolds admits v' later w := by
  generalize hwhole : past ++ i :: later = whole at h
  induction h generalizing later with
  | nil => simp at hwhole
  | notes _ deferred ticks ih =>
    obtain ⟨v, v', hpast, hi, hlater⟩ := ih hwhole
    exact ⟨v, v', hpast, hi, hlater.notes deferred ticks⟩
  | @step whole j v v' h hj ih =>
    obtain ⟨rfl, rfl, rfl⟩ | ⟨later, rfl, hbefore⟩ := append_singleton_eq_iff.mp hwhole.symm
    · exact ⟨v, v', h, hj, .nil⟩
    · obtain ⟨v₁, v₂, hpast, hi, hlater⟩ := ih hbefore.symm
      exact ⟨v₁, v₂, hpast, hi, hlater.step hj⟩

end Unfolds

/-! ### Runs and ticks, incident by incident -/

/-- The changes that have waited are carried out one after the other. -/
theorem unfolds_applyAll (v : World) (ds : List Deferred) :
    Unfolds admits v ((applyMoments v ds).map .amid) (v.applyAll ds).2 := by
  induction ds generalizing v with
  | nil => exact .nil
  | cons d ds ih => exact (Unfolds.single (.change v d)).trans (ih (v.applyOne d).2)

/-- At the end of a pass everything is carried out that has waited. -/
theorem unfolds_settle (v : World) (report : TickReport) :
    Unfolds admits v (v.settleMoments.map .amid) (v.settle report).2 :=
  (Unfolds.nil.notes [] v.ticks).trans (unfolds_applyAll { v with deferred := [] } v.deferred)

/-- In the pass of a map the map has its turn, and then the changes are carried out. -/
theorem unfolds_passMap (map : MapId) (s : TickReport × World) :
    Unfolds admits s.2 ((passMoments map s).map .amid) (passMap map s).2 := by
  obtain ⟨report, v⟩ := s
  rw [passMoments, passMap]
  rcases hg : v.region? map with _ | g
  · exact .nil
  · exact (Unfolds.single (.turn hg report)).trans (unfolds_settle _ _)

/-- The rest of a tick is the passes of the maps that are left. -/
theorem unfolds_restOfTick (maps : List MapId) (s : TickReport × World) :
    Unfolds admits s.2 ((restMoments maps s).map .amid) (restOfTick maps s).2 := by
  induction maps generalizing s with
  | nil => exact unfolds_settle s.2 s.1
  | cons map maps ih =>
    rw [restMoments, List.map_append]
    exact (unfolds_passMap map s).trans (ih (passMap map s))

/-- A tick goes from moment to moment. -/
theorem unfolds_tick (w : World) : Unfolds admits w (w.incidents .tick) w.tick.2 :=
  (Unfolds.nil.notes w.deferred (w.ticks + 1)).trans (unfolds_restOfTick w.regions.keys
    ({ tick := w.ticks + 1 }, { w with ticks := w.ticks + 1 }))

/-- What has happened in a run leads, one incident after the other, to what the run has reached. -/
theorem History.unfolds (h : History admits u past w) : Unfolds admits u past w := by
  induction h with
  | start => exact .nil
  | @step past w _ c hc ih =>
    refine ih.trans ?_
    by_cases htick : c = .tick
    · subst htick
      exact w.unfolds_tick
    · have hasked : w.incidents c = [.asked w c] := by
        cases c with
        | tick => exact absurd rfl htick
        | _ => rfl
      rw [hasked]
      exact .single (.asked hc htick)

/-- An incident comes down to a few kinds of changes, and those of a tick to what happens in ticks. -/
theorem Happens.develops (hadmits : ∀ v c, admits v c → Develops t v (v.execute c))
    (hleaves : ∀ e, t.leaves e) (hjumps : ∀ id, t.jumps id) (hturns : ∀ map, t.turns map)
    {i : Incident} (h : Happens admits i v v') : Develops t v v' := by
  cases h with
  | asked hc => exact hadmits _ _ hc
  | turn hg report => exact .single (.turns hg report (hturns _))
  | change d => exact develops_applyOne (Terms.mayApply hleaves hjumps _)

/-- Whatever happens is a few changes of the world. -/
theorem Unfolds.develops (hadmits : ∀ v c, admits v c → Develops t v (v.execute c))
    (hleaves : ∀ e, t.leaves e) (hjumps : ∀ id, t.jumps id) (hturns : ∀ map, t.turns map)
    (h : Unfolds admits u past w) : Develops t u w := by
  induction h with
  | nil => exact .refl
  | notes _ deferred ticks ih => exact ih.tail (.notes _ deferred ticks)
  | step _ hi ih => exact ih.trans (hi.develops hadmits hleaves hjumps hturns)

theorem Happens.develops_allowed {i : Incident} (h : Happens Allows i v v') : Develops {} v v' :=
  h.develops (fun _ _ hc => hc.develops) (fun _ => trivial) (fun _ => trivial) fun _ => trivial

theorem Unfolds.develops_allowed (h : Unfolds Allows u past w) : Develops {} u w :=
  h.develops (fun _ _ hc => hc.develops) (fun _ => trivial) (fun _ => trivial) fun _ => trivial

/-- What a tick comes to before one of its moments, and after it. -/
theorem unfolds_of_moments (admits : World → Command → Prop) {before after : List Moment}
    {moment : Moment} (h : w.moments = before ++ moment :: after) :
    ∃ v v', Unfolds admits w (before.map .amid) v ∧ Happens admits (.amid moment) v v' ∧
      Unfolds admits v' (after.map .amid) w.tick.2 := by
  have htick : Unfolds admits w (w.incidents .tick) w.tick.2 := unfolds_tick w
  rw [incidents, h, List.map_append, List.map_cons] at htick
  exact htick.split

/-- When a map has its turn in a tick, only such things have happened as happen in ticks. -/
theorem develops_of_turn (h : .turn v g ∈ w.moments) :
    Develops .ofTick w v ∧ ∃ map, v.region? map = some g := by
  obtain ⟨before, after, hmoments⟩ := List.append_of_mem h
  obtain ⟨_, _, hbefore, hhappens, -⟩ := unfolds_of_moments (fun _ _ => False) hmoments
  cases hhappens with
  | turn hg =>
    refine ⟨hbefore.develops (fun _ _ hno => False.elim hno) ?_ ?_ ?_, _, hg⟩ <;>
      exact fun _ => trivial

/-! ### The turns of a tick -/

/-- The map that has its turn in a moment. -/
def Moment.turned? : Moment → Option MapId
  | .turn _ g => some g.id
  | .change _ _ => none

/-- The map that has its turn in an incident. -/
def Incident.turned? : Incident → Option MapId
  | .asked _ _ => none
  | .amid moment => moment.turned?

theorem filterMap_turned?_applyMoments (v : World) (ds : List Deferred) :
    (applyMoments v ds).filterMap Moment.turned? = [] := by
  induction ds generalizing v with
  | nil => rfl
  | cons d ds ih => exact ih (v.applyOne d).2

/-- No map has its turn while changes are carried out. -/
theorem turn_not_mem_applyMoments (v' : World) (ds : List Deferred) :
    .turn v g ∉ applyMoments v' ds := fun h => by
  have hnone := List.filterMap_eq_nil_iff.mp (filterMap_turned?_applyMoments v' ds) _ h
  cases hnone

/-- Each map that is left in a tick has its turn once, in order. -/
theorem filterMap_turned?_restMoments {maps : List MapId} {s : TickReport × World}
    (hs : s.2.Housed) (h : ∀ map ∈ maps, (s.2.region? map).isSome) :
    (restMoments maps s).filterMap Moment.turned? = maps := by
  induction maps generalizing s with
  | nil => exact filterMap_turned?_applyMoments ..
  | cons map maps ih =>
    obtain ⟨g, hg⟩ := Option.isSome_iff_exists.mp (h map List.mem_cons_self)
    have hpassed := s.2.develops_passMap_ofTick map s.1
    have hthen : (restMoments maps (passMap map s)).filterMap Moment.turned? = maps := by
      refine ih (hpassed.keeps (P := Housed) (fun h hv => hv.alters h) hs) fun m hm => ?_
      exact hpassed.keeps (P := fun v => (v.region? m).isSome) (fun h => h.isSome_region?)
        (h m (List.mem_cons_of_mem map hm))
    have hturn : (passMoments map s).filterMap Moment.turned? = [map] := by
      obtain ⟨report, v⟩ := s
      have hg : v.region? map = some g := hg
      rw [passMoments, hg, ← hs.id_eq hg]
      exact congrArg (g.id :: ·) (filterMap_turned?_applyMoments ..)
    rw [restMoments, List.filterMap_append, hthen, hturn]
    rfl

/-- In a tick the maps in use have their turns, each of them once and in their order. -/
theorem filterMap_turned?_moments (hw : w.Housed) :
    w.moments.filterMap Moment.turned? = w.regions.keys :=
  filterMap_turned?_restMoments (hw.congr rfl rfl) fun _ hm => mem_keys_iff.mp hm

/-- In a tick a map in use has its turn at one moment and at no other. -/
theorem exists_turn_of_moments (hw : w.Housed) (hm : (w.region? m).isSome) :
    ∃ before v g after, w.moments = before ++ .turn v g :: after ∧ g.id = m ∧
      ∀ i ∈ before ++ after, i.turned? ≠ some m := by
  have hnodup : w.regions.keys.Nodup := Std.ExtTreeMap.nodup_keys
  obtain ⟨maps, maps', hkeys⟩ := List.append_of_mem (mem_keys_iff.mpr hm)
  have hturns := filterMap_turned?_moments hw
  rw [hkeys] at hturns hnodup
  obtain ⟨before, rest, hmoments, hbefore, hrest⟩ := List.filterMap_eq_append_iff.mp hturns
  obtain ⟨skipped, moment, after, rfl, hskipped, hmoment, hafter⟩ :=
    List.filterMap_eq_cons_iff.mp hrest
  -- no other turn is that of the map
  have hother {l : List Moment} {ms : List MapId} (hl : l.filterMap Moment.turned? = ms)
      (hms : m ∉ ms) : ∀ i ∈ l, i.turned? ≠ some m := fun i hi hi' =>
    hms (hl ▸ List.mem_filterMap.mpr ⟨i, hi, hi'⟩)
  obtain ⟨-, hnodup', hdisjoint⟩ := List.nodup_append.mp hnodup
  have hmaps : m ∉ maps := fun hin => hdisjoint m hin m List.mem_cons_self rfl
  obtain ⟨v, g⟩ | _ := moment
  · refine ⟨before ++ skipped, v, g, after, by rw [hmoments, List.append_assoc],
      Option.some.inj hmoment, fun i hi => ?_⟩
    rcases List.mem_append.mp hi with hi | hi
    · rcases List.mem_append.mp hi with hi | hi
      · exact hother hbefore hmaps i hi
      · rw [hskipped i hi]
        simp
    · exact hother hafter (List.nodup_cons.mp hnodup').1 i hi
  · cases hmoment

end World

end TileWorld
