import TileWorld.Proofs.World.Marks
import TileWorld.Proofs.World.Pacing

/-!
# How long something is news

After a tick nothing is remembered of anybody, except that whoever was sent to a map in the tick is
new there if the map had had its turn by then or was not yet in use when the tick began
(`World.Orderly.tick_changes`). So whoever has been put on a map is new in one turn of the map, the
first one since, unless it has left before: `World.fresh_of_history`.
-/

namespace TileWorld

namespace World

variable {admits : World → Command → Prop} {v v' w : World} {m : MapId} {k : EntityId} {o : Entity}
  {past : List Incident} {i : Incident}

/-! ### What is left after a tick -/

/-- The map has had its turn since, or it was not in use then. -/
def TurnedOrUnused (w : World) (m : MapId) (past : List Incident) : Prop :=
  (∃ j ∈ past, j.turned? = some m) ∨ w.region? m = none

/-- In the course of a tick the entity was sent to the map, which had had its turn by then or was not in
use when the tick began. -/
def ArrivesLate (w : World) (m : MapId) (k : EntityId) (past : List Incident) : Prop :=
  ∃ before i after, past = before ++ i :: after ∧ w.TurnedOrUnused m before ∧
    ∃ v p x, i = .amid (.change v (.warp k m p)) ∧ (v.warp k m p).1 = .ok x

/-- One more incident makes no difference to that, unless it is the turn of the map. -/
theorem turnedOrUnused_append_singleton :
    w.TurnedOrUnused m (past ++ [i]) ↔ w.TurnedOrUnused m past ∨ i.turned? = some m := by
  simp only [TurnedOrUnused, List.mem_append, List.mem_singleton, or_and_right, exists_or,
    exists_eq_left]
  rw [or_right_comm]

theorem arrivesLate_append_singleton : w.ArrivesLate m k (past ++ [i]) ↔ w.ArrivesLate m k past ∨
    (w.TurnedOrUnused m past ∧
      ∃ v p x, i = .amid (.change v (.warp k m p)) ∧ (v.warp k m p).1 = .ok x) := by
  simp only [ArrivesLate, append_singleton_eq_iff]
  constructor
  · rintro ⟨before, j, after, ⟨rfl, rfl, -⟩ | ⟨after, rfl, rfl⟩, hlate⟩
    · exact .inr hlate
    · exact .inl ⟨before, j, after, rfl, hlate⟩
  · rintro (⟨before, j, after, rfl, hlate⟩ | hlate)
    · exact ⟨before, j, after ++ [i], .inr ⟨after, rfl, rfl⟩, hlate⟩
    · exact ⟨past, i, [], .inl ⟨rfl, rfl, rfl⟩, hlate⟩

/-- Whoever is late on a map comes to it when the map has had its turn. -/
theorem ArrivesLate.turnedOrUnused (h : w.ArrivesLate m k past) : w.TurnedOrUnused m past := by
  obtain ⟨before, i, after, rfl, ⟨j, hj, hturn⟩ | hunused, -⟩ := h
  · exact .inl ⟨j, List.mem_append_left _ hj, hturn⟩
  · exact .inr hunused

/-- Somebody on a map is as it should be when the map has had its turn in a tick: it is late and has
just come, or nothing is remembered of it. -/
def Settles (w : World) (m : MapId) (k : EntityId) (past : List Incident) (o : Entity) : Prop :=
  (w.ArrivesLate m k past ∧ o.Landed) ∨ (¬ w.ArrivesLate m k past ∧ o.changes = {})

/-- An incident that does not send it to the map changes nothing about that. -/
theorem Settles.append_singleton (h : w.Settles m k past o)
    (hnot : ¬ ∃ v p x, i = .amid (.change v (.warp k m p)) ∧ (v.warp k m p).1 = .ok x) :
    w.Settles m k (past ++ [i]) o := by
  have hlate : w.ArrivesLate m k (past ++ [i]) ↔ w.ArrivesLate m k past :=
    arrivesLate_append_singleton.trans (or_iff_left fun hlast => hnot hlast.2)
  rwa [Settles, hlate]

/-- The same if a change is carried out, which may send it there. -/
theorem Settles.applyOne (hv : v.Orderly) {d : Deferred} (ho : (v.applyOne d).2.Finds m k o)
    (hm : w.TurnedOrUnused m past) (h : v.Finds m k o → w.Settles m k past o) :
    w.Settles m k (past ++ [.amid (.change v d)]) o := by
  cases d with
  | remove id cause =>
    refine (h ?_).append_singleton (by simp)
    rw [World.applyOne] at ho
    rcases hrem : v.remove id cause with _ | ⟨e, v'⟩ <;> rw [hrem] at ho
    · exact ho
    · exact ((finds_remove_iff hrem).mp ho).1
  | warp id map p =>
    rw [snd_applyOne_warp] at ho
    -- a warp that fails, or one of somebody else or to another map, does not send it there
    have hstays (hfinds : v.Finds m k o)
        (hother : (∃ err, (v.warp id map p).1 = .error err) ∨ ¬ (m = map ∧ k = id)) :
        w.Settles m k (past ++ [.amid (.change v (.warp id map p))]) o := by
      refine (h hfinds).append_singleton ?_
      rintro ⟨u, p', x, heq, hok⟩
      cases heq
      obtain ⟨err, herr⟩ | hother := hother
      · rw [herr] at hok
        cases hok
      · exact hother ⟨rfl, rfl⟩
    obtain ⟨-, herr, hfinds⟩ | ⟨-, -, ⟨herr, hfinds⟩ | ⟨e, x, hok, hfinds⟩⟩ :=
      hv.finds_warp_cases id map p
    · exact hstays ((hfinds m k o).mp ho) (.inl herr)
    · exact hstays ((hfinds m k o).mp ho).1 (.inl herr)
    · by_cases hthere : m = map ∧ k = id
      · obtain ⟨rfl, rfl⟩ := hthere
        -- nobody else is found there
        obtain ⟨g, hg, hk⟩ := ho
        obtain ⟨g', hg', hk'⟩ := (hfinds m k _).mpr (.inr ⟨rfl, rfl, rfl⟩)
        obtain rfl := Option.some.inj (hg.symm.trans hg')
        obtain rfl := Option.some.inj (hk.symm.trans hk')
        exact .inl ⟨arrivesLate_append_singleton.mpr (.inr ⟨hm, v, p, x, rfl, hok⟩),
          (e.atRest_place m p).landed x⟩
      · obtain ⟨hfinds, -⟩ | ⟨rfl, rfl, -⟩ := (hfinds m k o).mp ho
        · exact hstays hfinds (.inr hthere)
        · exact absurd ⟨rfl, rfl⟩ hthere

/-- Whoever is on a map that has had its turn in a tick is as it should be. -/
theorem Unfolds.settles (h : Unfolds (fun _ _ => False) w past v) (hw : w.Orderly)
    (hturns : past.filterMap Incident.turned? <+: w.regions.keys) (hm : w.TurnedOrUnused m past)
    (ho : v.Finds m k o) : w.Settles m k past o := by
  induction h generalizing o with
  | nil =>
    obtain ⟨j, hj, -⟩ | hunused := hm
    · cases hj
    · obtain ⟨g, hg, -⟩ := ho
      rw [hunused] at hg
      cases hg
  | notes _ deferred ticks ih => exact ih hturns hm ho
  | @step past i v v' h hi ih =>
    have hv : v.Orderly := h.orderly (fun _ _ hno => False.elim hno) hw
    rw [List.filterMap_append] at hturns
    have hearlier := (List.prefix_append _ _).trans hturns
    cases hi with
    | asked hno => exact hno.elim
    | change d =>
      have hm' := (turnedOrUnused_append_singleton.mp hm).resolve_right (by simp [Incident.turned?,
        Moment.turned?])
      exact .applyOne hv ho hm' (ih hearlier hm')
    | @turn _ map g hg report =>
      have hnot : ¬ ∃ u p x, Incident.amid (.turn v g) = .amid (.change u (.warp k m p)) ∧
          (u.warp k m p).1 = .ok x := by simp
      obtain ⟨hne, ho⟩ | ⟨rfl, e, -, rfl⟩ := (finds_turn_iff rfl report).mp ho
      · refine (ih hearlier ?_ ho).append_singleton hnot
        refine (turnedOrUnused_append_singleton.mp hm).resolve_right fun hturned => hne ?_
        exact (Option.some.inj hturned).symm
      · -- the map has had no turn yet, and it was in use
        refine .inr ⟨fun hlate => ?_, rfl⟩
        have hlate := (arrivesLate_append_singleton.mp hlate).resolve_right fun h => hnot h.2
        have hkeys : past.filterMap Incident.turned? ++ [g.id] <+: w.regions.keys := hturns
        obtain ⟨j, hj, hturned⟩ | hunused := hlate.turnedOrUnused
        · have hnodup := Std.ExtTreeMap.nodup_keys.sublist hkeys.sublist
          have hdisjoint := (List.nodup_append.mp hnodup).2.2
          exact hdisjoint g.id (List.mem_filterMap.mpr ⟨j, hj, hturned⟩) g.id
            (List.mem_singleton_self _) rfl
        · have hmem := hkeys.subset (List.mem_append_right _ (List.mem_singleton_self g.id))
          rw [mem_keys_iff, hunused] at hmem
          cases hmem

/-- After a tick whoever has come late is new on its map and at rest there, and nothing is remembered of
anybody else. -/
theorem Orderly.tick_changes (hw : w.Orderly) (ho : w.tick.2.Finds m k o) :
    w.Settles m k (w.incidents .tick) o := by
  have hturns : (w.incidents .tick).filterMap Incident.turned? = w.regions.keys := by
    rw [incidents, List.filterMap_map]
    exact filterMap_turned?_moments hw.toHoused
  refine w.unfolds_tick.settles hw (by rw [hturns]) ?_ ho
  rcases hm : w.region? m with _ | g
  · exact .inr hm
  · have hmem : m ∈ w.regions.keys := mem_keys_iff.mpr (Option.isSome_of_eq_some hm)
    rw [← hturns] at hmem
    exact .inl (List.mem_filterMap.mp hmem)

/-! ### Runs -/

/-- In a run, after any tick nothing is remembered of anybody but those who were sent to a map that had
had its turn by then or was not in use when the tick began: these are new on their maps and at rest
there, and nothing else has happened to them. In the tick each map in use has its turn once, and when
its players look around then, those are new who have come up in the turn, and those who have been put
on the map since its last turn and have not left it since. -/
theorem fresh_of_history {config : WorldConfig} {atlas : Atlas}
    (h : History Allows (empty config atlas) past w) :
    (∀ m k o, w.tick.2.Finds m k o →
      (w.ArrivesLate m k (w.incidents .tick) ∧ o.Landed) ∨
        (¬ w.ArrivesLate m k (w.incidents .tick) ∧ o.changes = {})) ∧
    ∀ m, (w.region? m).isSome → ∃ before v g after,
      w.moments = before ++ .turn v g :: after ∧ g.id = m ∧
      (∀ i ∈ before ++ after, i.turned? ≠ some m) ∧
      ∀ k, (∃ o, (v.arranged g).find? k = some o ∧ o.changes.newOnMap = true) ↔
        Lately (Incident.Places m k) m k (past ++ before.map .amid) ∨
          (g.find? k = none ∧ ∃ o, (v.arranged g).find? k = some o) := by
  have hw : w.Orderly := h.unfolds.orderly (fun _ _ hc => hc) (orderly_empty config atlas)
  refine ⟨fun m k o ho => hw.tick_changes ho, fun m hm => ?_⟩
  obtain ⟨before, v, g, after, hmoments, rfl, hothers, hg, hunfolds⟩ :=
    h.exists_turn (fun _ _ hc => hc) hm
  refine ⟨before, v, g, after, hmoments, rfl, hothers, fun k => ?_⟩
  have hplaces : Incident.Places g.id k = Incident.Gives g.id k .newOnMap :=
    funext fun _ => propext gives_newOnMap_iff.symm
  rw [hplaces]
  simpa [Mark.isIn] using hunfolds.marked_iff_lately .newOnMap (fun _ _ hc => hc) hg

/-- Ann is about to go to the cave, which is not in use yet. -/
def expedition : World := (empty {} ferry).execute (.enter "Ann")

/-- After the tick she is new in the cave. -/
theorem fresh_at_expedition : ∃ o, expedition.tick.2.Finds ⟨2⟩ (.nth 1) o ∧ o.Landed ∧
    expedition.ArrivesLate ⟨2⟩ (.nth 1) (expedition.incidents .tick) := by
  have hhistory : History Allows (empty {} ferry) _ expedition :=
    History.start.step (.enter "Ann") trivial
  have hnew : ((expedition.tick.2.region? ⟨2⟩).bind fun g =>
      (g.find? (.nth 1)).map fun o => o.changes.newOnMap) = some true := by cbv
  obtain ⟨g, hg, hk⟩ := Option.bind_eq_some_iff.mp hnew
  obtain ⟨o, ho, hmark⟩ := Option.map_eq_some_iff.mp hk
  obtain ⟨hlate, hlanded⟩ | ⟨-, hempty⟩ := (fresh_of_history hhistory).1 ⟨2⟩ (.nth 1) o ⟨g, hg, ho⟩
  · exact ⟨o, ⟨g, hg, ho⟩, hlanded, hlate⟩
  · rw [hempty] at hmark
    cases hmark

end World

end TileWorld
