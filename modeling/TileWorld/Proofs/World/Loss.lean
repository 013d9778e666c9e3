import TileWorld.Proofs.World.Players
import TileWorld.Proofs.World.Round

/-!
# How players get lost

A player stops to play when it is removed or when it falls out of the world on its way to another
place, and only in the second case does the world put it on the list of those who are lost. So a
player that is gone after a warp is on the list (`World.lost_of_warp`), and so is one that is gone
after a tick although its removal did not wait (`World.lost_of_tick`); a player whose removal waits
is gone after the tick and is not on the list (`World.forgets_tick`).
-/

namespace TileWorld

open Relation

namespace World

variable {t : Terms} {v w w' : World} {e : EntityId}

/-! ### Players that nobody removes -/

/-- A player plays, or the world knows that it is lost. -/
def AccountsFor (w : World) (e : EntityId) : Prop := w.Plays e ∨ e ∈ w.lost

theorem AccountsFor.develops (h : w.AccountsFor e) (hw : w.Sound)
    (ht : ∀ o : Entity, t.leaves o → o.id ≠ e) (hdev : Develops t w w')
    (hlt : w'.issued < UInt32.size) : w'.AccountsFor e := by
  refine hw.keeps (P := fun v => v.AccountsFor e) hdev (fun {v v'} hv halters _ hv' => ?_) h hlt
  obtain ⟨hlost, hplays⟩ | ⟨o, -, hlost, hplays⟩ | ⟨o, hleaves, hlost, hplays⟩ |
    ⟨id, -, hlost, hplays⟩ := hv.playsOn halters <;> rw [AccountsFor, hlost, hplays]
  · exact hv'
  · exact hv'.imp_left .inr
  · exact hv'.imp_left fun hplay => ⟨(ht o hleaves).symm, hplay⟩
  · by_cases hid : e = id
    · exact .inr (List.mem_append_right _ (List.mem_singleton.mpr hid))
    · exact hv'.imp (fun hplay => ⟨hid, hplay⟩) (List.mem_append_left _)

/-- A player that does not play any more after a warp is lost. -/
theorem lost_of_warp (hw : w.Sound) (hplays : w.Plays e) {id : EntityId} {map : MapId} {p : Point}
    (hlt : (w.warp id map p).2.issued < UInt32.size) (hgone : ¬ (w.warp id map p).2.Plays e) :
    e ∈ (w.warp id map p).2.lost := by
  have hdev : Develops { leaves := fun o => o.id ≠ e } w (w.warp id map p).2 :=
    develops_warp w trivial map p
  exact (AccountsFor.develops (.inl hplays) hw (fun _ h => h) hdev hlt).resolve_left hgone

/-- Whoever goes to another map on which no number is free falls out of the world. -/
theorem Sound.not_plays_warp_of_full (hw : w.Sound) {map map' : MapId} {p : Point} {g : Region}
    (hmap : w.mapOf e = some map) (hne : map' ≠ map) (hg : w.region? map' = some g)
    (hp : g.terrain.contains p = true) (hfull : g.publicIds.take = none) :
    ¬ (w.warp e map' p).2.Plays e := by
  have hin : w.locations.contains e = true := contains_locations.mpr (by simp [hmap])
  have hact : w.activate map' = .ok (g, w) := activate_eq_ok_iff.mpr (.inl ⟨hg, rfl⟩)
  rcases hrem : w.remove e .warp with _ | ⟨o, w₂⟩
  · simp only [warp, hin, hact, hp, hrem, Bool.not_true, Bool.false_eq_true, if_false]
    exact hw.not_plays_of_remove_eq_none hrem
  · have hgone : ¬ w₂.Plays e := fun hplays => ((hw.plays_remove hrem e).mp hplays).1 rfl
    -- the other map is as full as before
    have hg₂ : w₂.region? map' = some g := by
      obtain ⟨m, g₁, leaving, g', hm, -, -, -, rfl⟩ := remove_eq_some_iff.mp hrem
      obtain rfl : m = map := Option.some.inj (hm.symm.trans hmap)
      exact (Table.getElem?_insert ..).trans ((if_neg hne).trans hg)
    have hadd : ∃ err, w₂.add (o.place map' p) = (.error err, w₂) := by
      obtain h | ⟨-, g₂, w₃, hact₂, hrest⟩ := w₂.add_cases (o.place map' p)
      · exact h
      obtain rfl : w₃ = w₂ := eq_of_activate hact₂ (Option.isSome_of_eq_some hg₂)
      obtain h | ⟨x, g', hcomes, -⟩ := hrest
      · exact h
      obtain rfl : g = _ := Option.some.inj (hg₂.symm.trans hcomes.region)
      obtain ⟨-, -, -, publicIds, htake, -⟩ := Region.insert_eq_ok_iff.mp hcomes.insert
      rw [hfull] at htake
      cases htake
    obtain ⟨err, hadd⟩ := hadd
    simp only [warp, hin, hact, hp, hrem, hadd, Bool.not_true, Bool.false_eq_true, if_false]
    split <;> exact hgone

/-- What happens in a tick in which everybody but one may be removed. -/
def Terms.sparing (e : EntityId) : Terms := { Terms.ofTick with leaves := fun o => o.id ≠ e }

/-- No removal of the entity waits. -/
def Spares (w : World) (e : EntityId) : Prop := ∀ cause, .remove e cause ∉ w.deferred

theorem Sound.develops_applyAll_sparing (hv : v.Sound) {ds : List Deferred}
    (hds : ∀ cause, .remove e cause ∉ ds) (hlt : (v.applyAll ds).2.issued < UInt32.size) :
    Develops (.sparing e) v (v.applyAll ds).2 := by
  induction ds generalizing v with
  | nil => exact .refl
  | cons d ds ih =>
    have hone : Develops (.sparing e) v (v.applyOne d).2 := by
      cases d with
      | remove id cause =>
        rw [applyOne]
        rcases hrem : v.remove id cause with _ | ⟨o, v'⟩
        · exact .refl
        · refine .single (.leaves hrem ?_)
          have hid : o.id = id := (hv.issued_remove hrem).1
          rintro heq
          exact hds cause (by rw [← heq, hid]; exact List.mem_cons_self)
      | warp id map p => exact develops_applyOne (t := .sparing e) (d := .warp id map p) trivial
    have hlater : Develops .ofTick (v.applyOne d).2 (v.applyAll (d :: ds)).2 :=
      develops_applyAll_ofTick ..
    have hsound := hv.develops hone (Nat.lt_of_le_of_lt hlater.issued_le hlt)
    exact hone.trans (ih hsound (fun cause hmem => hds cause (List.mem_cons_of_mem _ hmem)) hlt)

theorem Sound.develops_settle_sparing (hv : v.Sound) (hspares : v.Spares e) (report : TickReport)
    (hlt : (v.settle report).2.issued < UInt32.size) :
    Develops (.sparing e) v (v.settle report).2 := by
  have hnote : Develops (.sparing e) v { v with deferred := [] } := .single (.notes v [] v.ticks)
  have hclear : { v with deferred := [] }.Sound := hv.congr rfl rfl (Nat.le_refl _)
  exact hnote.trans (hclear.develops_applyAll_sparing hspares hlt)

/-- In the turn of a map nobody is spared less. -/
theorem Sound.develops_passMap_sparing (hv : v.Sound) (hspares : v.Spares e) (map : MapId)
    (report : TickReport) (hlt : (World.passMap map (report, v)).2.issued < UInt32.size) :
    Develops (.sparing e) v (World.passMap map (report, v)).2 := by
  obtain ⟨-, heq⟩ | ⟨g, report', hg, hturn, -, heq⟩ := hv.passMap_cases map report hlt
  · rw [heq]
  · rw [heq] at hlt ⊢
    have hspares' : (v.passRegion g report).2.Spares e := by
      obtain ⟨fixtures, heq⟩ := v.passRegion_eq g report
      rw [heq]
      exact fun cause hmem => hspares cause (mem_deferred_worked hmem)
    exact (ReflTransGen.single (.turns hg report trivial)).trans
      (hturn.develops_settle_sparing hspares' _ hlt)

/-- A tick spares whoever is not to be removed. -/
theorem Sound.develops_tick_sparing (hw : w.Sound) (hspares : w.Spares e)
    (hlt : w.tick.2.issued < UInt32.size) : Develops (.sparing e) w w.tick.2 := by
  obtain ⟨report, v, hv, ⟨hspares', hdev⟩, heq⟩ := hw.tick_eq_settle
    (I := fun _ v => v.Spares e ∧ Develops (.sparing e) w v)
    (fun map _ v report hv ⟨hspares, hdev⟩ hlt =>
      ⟨fun cause hmem => hspares cause (mem_deferred_passMap hmem),
        hdev.trans (hv.develops_passMap_sparing hspares map report hlt)⟩)
    ⟨hspares, .single (.notes w _ _)⟩ hlt
  rw [heq] at hlt ⊢
  exact hdev.trans (hv.develops_settle_sparing hspares' report hlt)

/-- A player that does not play any more after a tick is lost, unless its removal has waited. -/
theorem lost_of_tick (hw : w.Sound) (hplays : w.Plays e) (hspares : w.Spares e)
    (hlt : w.tick.2.issued < UInt32.size) (hgone : ¬ w.tick.2.Plays e) : e ∈ w.tick.2.lost := by
  have hdev := hw.develops_tick_sparing hspares hlt
  exact (AccountsFor.develops (.inl hplays) hw (fun _ h => h) hdev hlt).resolve_left hgone

/-! ### Players that are removed -/

/-- A player neither plays nor is lost. -/
def Forgets (w : World) (e : EntityId) : Prop := ¬ w.Plays e ∧ e ∉ w.lost

/-- Whoever is forgotten stays so as long as nobody comes. -/
theorem Forgets.develops (h : w.Forgets e) (hw : w.Sound) (ht : ∀ kind, ¬ t.comes kind)
    (hdev : Develops t w w') (hlt : w'.issued < UInt32.size) : w'.Forgets e := by
  refine hw.keeps (P := fun v => v.Forgets e) hdev (fun {v v'} hv halters _ hv' => ?_) h hlt
  obtain ⟨hlost, hplays⟩ | ⟨o, hkind, -⟩ | ⟨o, -, hlost, hplays⟩ | ⟨id, hid, hlost, hplays⟩ :=
    hv.playsOn halters
  · rwa [Forgets, hlost, hplays]
  · exact absurd hkind (ht _)
  · rw [Forgets, hlost, hplays]
    exact hv'.imp_left fun hnot hplay => hnot hplay.2
  · rw [Forgets, hlost, hplays]
    refine ⟨fun hplay => hv'.1 hplay.2, fun hmem => ?_⟩
    obtain hmem | hmem := List.mem_append.mp hmem
    · exact hv'.2 hmem
    · rw [List.mem_singleton.mp hmem] at hv'
      exact hv'.1 hid

/-- A removal waits, and before it nothing but removals. -/
def Dooms (ds : List Deferred) (e : EntityId) : Prop :=
  ∃ before cause after, ds = before ++ .remove e cause :: after ∧
    ∀ d ∈ before, ∃ id cause, d = .remove id cause

/-- Whoever is to be removed is doomed when no warp waits. -/
theorem dooms_of_mem {cause : RemovalCause} (h : .remove e cause ∈ w.deferred)
    (hw : w.Unwarped) : Dooms w.deferred e := by
  obtain ⟨before, after, heq⟩ := List.append_of_mem h
  refine ⟨before, cause, after, heq, fun d hd => ?_⟩
  cases d with
  | remove id cause => exact ⟨id, cause, rfl⟩
  | warp id map p => exact absurd (by rw [heq]; exact List.mem_append_left _ hd) (hw id map p)

theorem Dooms.append {ds : List Deferred} (h : Dooms ds e) (more : List Deferred) :
    Dooms (ds ++ more) e := by
  obtain ⟨before, cause, after, rfl, hbefore⟩ := h
  exact ⟨before, cause, after ++ more, by simp, hbefore⟩

/-- A removal takes its entity off its map and loses nobody. -/
theorem applyOne_remove (hv : v.Sound) (id : EntityId) (cause : RemovalCause) :
    ¬ (v.applyOne (.remove id cause)).2.Plays id ∧
      (v.applyOne (.remove id cause)).2.lost = v.lost := by
  rw [applyOne]
  rcases hrem : v.remove id cause with _ | ⟨o, v'⟩
  · exact ⟨hv.not_plays_of_remove_eq_none hrem, rfl⟩
  · exact ⟨fun hplay => ((hv.plays_remove hrem id).mp hplay).1 rfl, (frame_remove hrem).lost⟩

/-- A player that is removed before anybody goes elsewhere is forgotten. -/
theorem Sound.forgets_applyAll (hv : v.Sound) {ds : List Deferred} (hds : Dooms ds e)
    (hlost : e ∉ v.lost) (hlt : (v.applyAll ds).2.issued < UInt32.size) :
    (v.applyAll ds).2.Forgets e := by
  obtain ⟨before, cause, after, rfl, hbefore⟩ := hds
  induction before generalizing v with
  | nil =>
    obtain ⟨hgone, hsame⟩ := applyOne_remove hv e cause
    have hone : Develops .ofTick v (v.applyOne (.remove e cause)).2 :=
      develops_applyOne (mayApply_ofTick _)
    have hlater := (v.applyOne (.remove e cause)).2.develops_applyAll_ofTick after
    have hsound := hv.develops hone (Nat.lt_of_le_of_lt hlater.issued_le hlt)
    exact Forgets.develops ⟨hgone, by rwa [hsame]⟩ hsound (fun _ h => h) hlater hlt
  | cons d before ih =>
    obtain ⟨id, cause', rfl⟩ := hbefore d List.mem_cons_self
    obtain ⟨-, hsame⟩ := applyOne_remove hv id cause'
    have hone : Develops .ofTick v (v.applyOne (.remove id cause')).2 :=
      develops_applyOne (mayApply_ofTick _)
    have hlater := (v.applyOne (.remove id cause')).2.develops_applyAll_ofTick
      (before ++ .remove e cause :: after)
    have hsound := hv.develops hone (Nat.lt_of_le_of_lt hlater.issued_le hlt)
    have hlost' : e ∉ (v.applyOne (.remove id cause')).2.lost := by rwa [hsame]
    exact ih hsound hlost' (fun d hd => hbefore d (List.mem_cons_of_mem _ hd)) hlt

/-- A player is forgotten, or will be when the changes that wait are carried out. -/
def Condemns (w : World) (e : EntityId) : Prop :=
  w.Forgets e ∨ (Dooms w.deferred e ∧ e ∉ w.lost)

/-- Whoever is condemned is forgotten when the pass ends. -/
theorem Condemns.settle (h : v.Condemns e) (hv : v.Sound) (report : TickReport)
    (hlt : (v.settle report).2.issued < UInt32.size) : (v.settle report).2.Forgets e := by
  obtain hforgets | ⟨hdooms, hlost⟩ := h
  · exact hforgets.develops hv (fun _ h => h) (v.develops_settle_ofTick report) hlt
  · have hclear : { v with deferred := [] }.Sound := hv.congr rfl rfl (Nat.le_refl _)
    exact hclear.forgets_applyAll hdooms hlost hlt

/-- What the fixtures of a map put down comes after what waited before. -/
theorem exists_deferred_worked (w : World) (g : Region) :
    ∃ more, (w.worked g).deferred = w.deferred ++ more := by
  have hkept : Bookkeeping.Kept fun b => ∃ more, b.deferred = w.deferred ++ more := by
    refine ⟨fun _ _ hb => hb, fun _ hb => hb, ?_, fun _ _ _ _ _ hb _ => hb⟩
    rintro b ps map p - ⟨more, hmore⟩
    exact ⟨more ++ ps.map fun e => .warp e.id map p, by rw [hmore, List.append_assoc]⟩
  exact hkept.runAll (b := w.books g) ⟨[], (List.append_nil _).symm⟩ g.fixtures

theorem Condemns.passMap (h : v.Condemns e) (hv : v.Sound) (map : MapId) (report : TickReport)
    (hlt : (passMap map (report, v)).2.issued < UInt32.size) :
    (passMap map (report, v)).2.Condemns e := by
  obtain ⟨-, heq⟩ | ⟨g, report', hg, hturn, hlt', heq⟩ := hv.passMap_cases map report hlt
  · rw [heq]
    exact h
  · rw [heq] at hlt ⊢
    refine .inl (Condemns.settle ?_ hturn report' hlt)
    obtain hforgets | ⟨hdooms, hlost⟩ := h
    · exact .inl (hforgets.develops hv (t := .ofTick) (fun _ h => h)
        (.single (.turns hg report trivial)) hlt')
    · obtain ⟨fixtures, heq⟩ := v.passRegion_eq g report
      obtain ⟨more, hmore⟩ := v.exists_deferred_worked g
      have hdeferred : (v.passRegion g report).2.deferred = v.deferred ++ more := by
        rw [heq]
        exact hmore
      refine .inr ⟨hdeferred ▸ hdooms.append more, ?_⟩
      rw [heq]
      exact hlost

/-- A player whose removal waits is gone after a tick, and is not lost if it was not lost before. -/
theorem forgets_tick (hw : w.Sound) (hdooms : Dooms w.deferred e) (hlost : e ∉ w.lost)
    (hlt : w.tick.2.issued < UInt32.size) : w.tick.2.Forgets e := by
  obtain ⟨report, v, hv, hcondemns, heq⟩ := hw.tick_eq_settle (I := fun _ v => v.Condemns e)
    (fun map _ v report hv hcondemns hlt => hcondemns.passMap hv map report hlt)
    (.inr ⟨hdooms, hlost⟩) hlt
  rw [heq] at hlt ⊢
  exact hcondemns.settle hv report hlt

end World

end TileWorld
