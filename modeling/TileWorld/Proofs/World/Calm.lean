import TileWorld.Proofs.World.Delivery
import TileWorld.Proofs.World.Players

/-!
# Calm ticks

A tick is calm when nothing waits as it begins and no player stands in a gate when the gates open.
Then nobody goes anywhere, and the turns of the maps have nothing to do with one another: of a calm
tick one map sees its own turn and nothing else, but for the identities that have been given out
meanwhile (`World.Sound.exists_turn_of_calm`).
-/

namespace TileWorld

open Delivery

/-! ### Gates in which nobody stands -/

/-- The fixture would send a player away who stands at this point. -/
def Fixture.catches : Fixture → Point → Bool
  | gate g, p => g.area.contains p
  | spawn _, _ => false

/-- When the fixtures of the map begin to work, no player stands in a gate. -/
def Region.Calm (g : Region) : Prop :=
  ∀ f ∈ g.fixtures, ∀ p ∈ g.advance.players, f.catches p.position = false

/-- In the coming tick no player stands in a gate when the gates of its map open. -/
def World.Calm (w : World) : Prop := ∀ map g, w.region? map = some g → g.Calm

/-- To see that a tick will be calm, go through the maps. -/
theorem World.calm_of_all {w : World} (h : (w.regions.toList.all fun p => p.2.fixtures.all fun f =>
    p.2.advance.players.all fun o => !f.catches o.position) = true) : w.Calm := by
  simp only [List.all_eq_true, Bool.not_eq_true', Prod.forall,
    Std.ExtTreeMap.mem_toList_iff_getElem?_eq_some] at h
  exact h

namespace Bookkeeping

variable {b : Bookkeeping}

/-- No fixture brings a player onto the map. -/
theorem players_run (b : Bookkeeping) (f : Fixture) :
    ∀ p ∈ (b.run f).2.region.players, p ∈ b.region.players := by
  intro p hp
  obtain ⟨hmem, hplayer⟩ := Region.mem_players_iff.mp hp
  obtain ⟨k, hk⟩ := Region.mem_entities_iff.mp hmem
  obtain hk | ⟨-, hnot, -⟩ := (b.outgrows_run f).find?_cases hk
  · exact Region.mem_players_iff.mpr ⟨Region.mem_entities_of_find? hk, hplayer⟩
  · rw [hplayer] at hnot
    cases hnot

/-- Nobody is sent away if no player stands in a gate. -/
theorem deferred_runAll {fs : List Fixture}
    (h : ∀ f ∈ fs, ∀ p ∈ b.region.players, f.catches p.position = false) :
    (b.runAll fs).2.deferred = b.deferred := by
  induction fs generalizing b with
  | nil => rfl
  | cons f fs ih =>
    have hone : (b.run f).2.deferred = b.deferred := by
      cases f with
      | gate gate =>
        have hnone : (b.region.players.filter fun p => gate.area.contains p.position) = [] :=
          List.filter_eq_nil_iff.mpr fun p hp =>
            Bool.eq_false_iff.mp (h _ List.mem_cons_self p hp)
        simp only [run, openGate, hnone, List.map_nil, List.append_nil]
      | spawn s =>
        simp only [run, runSpawn]
        split <;> rfl
    exact (ih fun f' hf' p hp =>
      h f' (List.mem_cons_of_mem _ hf') p (b.players_run f p hp)).trans hone

end Bookkeeping

namespace World

variable {u v w w' : World} {m map : MapId} {g : Region} {k : EntityId}

/-- On a calm map no gate sends anybody anywhere. -/
theorem deferred_worked_of_calm (w : World) (hg : g.Calm) : (w.worked g).deferred = w.deferred :=
  Bookkeeping.deferred_runAll hg

/-- At the end of a pass nothing happens if nothing has waited. -/
theorem settle_of_idle (h : w.deferred = []) (report : TickReport) : (w.settle report).2 = w := by
  simp only [settle, applyDeferred, h, applyAll]
  rw [← h]

/-- If nothing waits and no player stands in a gate, then a map has its turn and nothing follows. -/
theorem passMap_of_calm (hidle : w.deferred = []) (hg : w.region? map = some g) (hcalm : g.Calm)
    (report : TickReport) : (passMap map (report, w)).2 = (w.passRegion g report).2 ∧
      (w.passRegion g report).2.deferred = [] := by
  have hdeferred : (w.passRegion g report).2.deferred = [] :=
    (w.deferred_worked_of_calm hcalm).trans hidle
  refine ⟨?_, hdeferred⟩
  simp only [passMap, hg]
  exact settle_of_idle hdeferred _

/-! ### What one map sees of the others -/

/-- Nothing has happened that one map would have seen. -/
structure Spared (m : MapId) (w w' : World) : Prop where
  config : w'.config = w.config
  issued_le : w.issued ≤ w'.issued
  region : w'.region? m = w.region? m
  messagesFor : ∀ g k, w.region? m = some g → g.Hosts k → w'.messagesFor k = w.messagesFor k

theorem Spared.refl (m : MapId) (w : World) : Spared m w w :=
  ⟨rfl, Nat.le_refl _, rfl, fun _ _ _ _ => rfl⟩

theorem Spared.trans (h : Spared m u v) (h' : Spared m v w) : Spared m u w where
  config := h'.config.trans h.config
  issued_le := Nat.le_trans h.issued_le h'.issued_le
  region := h'.region.trans h.region
  messagesFor g k hg hk :=
    (h'.messagesFor g k (h.region.trans hg) hk).trans (h.messagesFor g k hg hk)

/-- After its turn a map is what its players have seen, with what happened forgotten, and all other
maps are as they were. -/
theorem Sound.region?_passRegion (hw : w.Sound) (hg : w.region? map = some g) (report : TickReport)
    (m : MapId) : (w.passRegion g report).2.region? m =
      if m = map then some (w.arranged g).clearChanges else w.region? m := by
  have hid : (w.arranged g).clearChanges.id = map :=
    (w.region_id_worked g).trans (hw.region hg).1
  rw [snd_passRegion, ← hid]
  exact Table.getElem?_insert ..

theorem Sound.arranged (hw : w.Sound) (hg : w.region? map = some g)
    (hlt : (w.worked g).issued < UInt32.size) : (w.arranged g).Sound :=
  hw.fitted_worked hg hlt _

theorem hosts_arranged (w : World) (g : Region) (k : EntityId) :
    (w.arranged g).Hosts k ↔ g.Hosts k :=
  w.hosts_worked g k

/-- The turn of one map is not seen on another. -/
theorem Sound.spared_passRegion (hw : w.Sound) (hg : w.region? map = some g) (hne : m ≠ map)
    (report : TickReport) (hlt : (w.passRegion g report).2.issued < UInt32.size) :
    Spared m w (w.passRegion g report).2 where
  config := rfl
  issued_le := w.issued_le_worked g
  region := by rw [hw.region?_passRegion hg, if_neg hne]
  messagesFor g₁ k hg₁ hk := by
    have hsound := hw.arranged hg hlt
    have houtbox : (w.passRegion g report).2.outbox =
      w.outbox ++ (w.arranged g).synchronize w.config.range := rfl
    rw [messagesFor_append houtbox k]
    obtain hnil | ⟨p, hp, hplayer⟩ :=
      Region.messagesTo_synchronize_cases hsound.placed w.config.range k
    · rw [hnil, List.append_nil]
    · -- whoever is told anything plays on the map that has its turn
      have hhosts : g.Hosts k := (w.hosts_arranged g k).mp ⟨p, hp, hplayer⟩
      obtain ⟨e, he, -⟩ := hhosts
      obtain ⟨e₁, he₁, -⟩ := hk
      exact absurd (hw.map_eq hg₁ he₁ hg he) hne

/-! ### A calm tick -/

/-- Where a calm tick is when some maps are still to have their turn: these are as they were when
the tick began, and one of them, `m`, may have had its turn. -/
structure Amid (m : MapId) (w : World) (g : Region) (maps : List MapId) (v : World) : Prop where
  nodup : maps.Nodup
  idle : v.deferred = []
  ahead : ∀ map ∈ maps, v.region? map = w.region? map
  turn : (m ∈ maps ∧ Spared m w v) ∨ (m ∉ maps ∧ ∃ u report, u.Sound ∧ Spared m w u ∧
    Spared m (u.passRegion g report).2 v)

/-- A calm tick goes on by the pass of one more map. -/
theorem Amid.passMap {maps : List MapId} (h : Amid m w g (map :: maps) v) (hv : v.Sound)
    (hcalm : w.Calm) (hg : w.region? m = some g) (report : TickReport)
    (hlt : (passMap map (report, v)).2.issued < UInt32.size) :
    Amid m w g maps (passMap map (report, v)).2 := by
  obtain ⟨hnodup, hidle, hahead, hturn⟩ := h
  obtain ⟨hmap, hnodup⟩ := List.nodup_cons.mp hnodup
  have hhere := hahead map List.mem_cons_self
  rcases hg₁ : v.region? map with _ | g₁
  · -- a map that is not in use has no turn
    have hne : m ≠ map := by
      rintro rfl
      rw [← hhere, hg₁] at hg
      cases hg
    simp only [World.passMap, hg₁]
    refine ⟨hnodup, hidle, fun map' hmap' => hahead map' (List.mem_cons_of_mem _ hmap'), ?_⟩
    exact hturn.imp (And.imp_left fun hmem => (List.mem_cons.mp hmem).resolve_left hne)
      (And.imp_left fun hnot => (not_or.mp (mt List.mem_cons.mpr hnot)).2)
  · obtain ⟨heq, hidle⟩ := passMap_of_calm hidle hg₁ (hcalm map g₁ (hhere ▸ hg₁)) report
    rw [heq] at hlt ⊢
    refine ⟨hnodup, hidle, fun map' hmap' => ?_, ?_⟩
    · have hne : map' ≠ map := fun heq => hmap (heq ▸ hmap')
      rw [hv.region?_passRegion hg₁, if_neg hne]
      exact hahead map' (List.mem_cons_of_mem _ hmap')
    · obtain ⟨hmem, hspared⟩ | ⟨hnot, u, report', hu, hspared, hspared'⟩ := hturn
      · by_cases hne : m = map
        · subst hne
          obtain rfl : g₁ = g := Option.some.inj (hg₁.symm.trans (hhere.trans hg))
          exact .inr ⟨hmap, v, report, hv, hspared, .refl ..⟩
        · exact .inl ⟨(List.mem_cons.mp hmem).resolve_left hne,
            hspared.trans (hv.spared_passRegion hg₁ hne report hlt)⟩
      · obtain ⟨hne, hnot⟩ := not_or.mp (mt List.mem_cons.mpr hnot)
        exact .inr ⟨hnot, u, report', hu, hspared,
          hspared'.trans (hv.spared_passRegion hg₁ hne report hlt)⟩

/-- Of the tick that begins in `w` the map `m` sees its own turn and nothing else. The turn begins in
`v`. -/
structure SeesTurn (m : MapId) (g : Region) (w v : World) : Prop where
  sound : v.Sound
  region : v.region? m = some g
  issued_le : w.issued ≤ v.issued
  issued_le' : (v.worked g).issued ≤ w.tick.2.issued
  config : w.tick.2.config = w.config
  region' : w.tick.2.region? m = some (v.arranged g).clearChanges
  messagesFor : ∀ k, g.Hosts k → w.tick.2.messagesFor k =
    w.messagesFor k ++ messagesTo ((v.arranged g).synchronize w.config.range) k

theorem seesTurn_of_spared (hg : w.region? m = some g) (hv : v.Sound) (hbefore : Spared m w v)
    {report : TickReport} (hafter : Spared m (v.passRegion g report).2 w.tick.2) :
    SeesTurn m g w v := by
  have hregion : v.region? m = some g := hbefore.region.trans hg
  have hturn : (v.passRegion g report).2.region? m = some (v.arranged g).clearChanges := by
    rw [hv.region?_passRegion hregion, if_pos rfl]
  have houtbox : (v.passRegion g report).2.outbox =
    v.outbox ++ (v.arranged g).synchronize v.config.range := rfl
  refine ⟨hv, hregion, hbefore.issued_le, hafter.issued_le, hafter.config.trans hbefore.config,
    hafter.region.trans hturn, fun k hk => ?_⟩
  have hhosts : (v.arranged g).clearChanges.Hosts k :=
    (Region.hosts_clearChanges k).mpr ((v.hosts_arranged g k).mpr hk)
  rw [hafter.messagesFor _ k hturn hhosts, messagesFor_append houtbox,
    hbefore.messagesFor g k hg hk, hbefore.config]

/-- Of a calm tick a map sees its own turn and nothing else. -/
theorem Sound.exists_turn_of_calm (hw : w.Sound) (hcalm : w.Calm) (hidle : w.deferred = [])
    (hg : w.region? m = some g) (hlt : w.tick.2.issued < UInt32.size) : ∃ v, SeesTurn m g w v := by
  have hkeys : m ∈ w.regions.keys := mem_keys_iff.mpr (Option.isSome_of_eq_some hg)
  obtain ⟨report, v, -, hend, heq⟩ := hw.tick_eq_settle (I := Amid m w g)
    (fun map maps v report hv hamid hlt => hamid.passMap hv hcalm hg report hlt)
    ⟨Std.ExtTreeMap.nodup_keys, hidle, fun _ _ => rfl,
      .inl ⟨hkeys, rfl, Nat.le_refl _, rfl, fun _ _ _ _ => rfl⟩⟩ hlt
  rw [settle_of_idle hend.idle] at heq
  obtain ⟨hmem, -⟩ | ⟨-, u, report', hu, hbefore, hafter⟩ := hend.turn
  · exact absurd hmem List.not_mem_nil
  · exact ⟨u, seesTurn_of_spared hg hu hbefore (heq ▸ hafter)⟩

end World

end TileWorld
