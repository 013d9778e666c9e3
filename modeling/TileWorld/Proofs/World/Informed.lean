import TileWorld.Proofs.Client.Agreement
import TileWorld.Proofs.World.Delivery
import TileWorld.Proofs.World.Soundness

/-!
# Informed players

Between two turns of its map every player has the right view of it, if it has got all messages that
wait for it: `World.Informed`. Messages about what is to be seen come from three places. A tick
tells of whoever comes into view, goes out of it or moves; whoever leaves is taken leave of; and
a player that comes onto a map begins anew. That they fit together is shown here for each kind of
change (`World.Informed.alters`).
-/

namespace TileWorld

open Delivery Outlook

namespace World

/-- All players have the right view of their maps, and whatever they may have to be told can be
written. -/
structure Informed (w : World) : Prop where
  titles : ∀ map, Field.Fits (w.mapTitle map)
  names : ∀ {map g k e}, w.region? map = some g → g.find? k = some e → e.kind.NameFits
  scenes : ∀ {map g k p}, w.region? map = some g → g.find? k = some p → p.isPlayer = true →
    (w.scene p.id).Agrees g (between p w.config.range)

variable {w w' : World}

theorem informed_empty {config : WorldConfig} {atlas : Atlas}
    (h : ∀ map, Field.Fits ((empty config atlas).mapTitle map)) :
    (empty config atlas).Informed where
  titles := h
  names h := by simp [empty, region?] at h
  scenes h := by simp [empty, region?] at h

/-- Players stay informed if one map changes, those on it are told, and nobody else is told
anything. -/
theorem Informed.update (hw : w.Informed) {map : MapId} {g : Region} {ds : List Delivery}
    (hatlas : w'.atlas = w.atlas) (hconfig : w'.config = w.config)
    (houtbox : w'.outbox = w.outbox ++ ds)
    (hregion : ∀ m, w'.region? m = if m = map then some g else w.region? m)
    (hnames : ∀ {k e}, g.find? k = some e → e.kind.NameFits)
    (hscenes : ∀ {k p}, g.find? k = some p → p.isPlayer = true →
      ((messagesTo ds p.id).foldl Scene.receive (w.scene p.id)).Agrees g (between p w.config.range))
    (hothers : ∀ {m g' k p}, m ≠ map → w.region? m = some g' → g'.find? k = some p →
      ∀ d ∈ ds, d.recipient ≠ p.id) : w'.Informed where
  titles m := by
    have h := hw.titles m
    rwa [mapTitle, ← hatlas] at h
  names {m g' k e} hm hk := by
    rw [hregion] at hm
    split at hm
    · cases hm
      exact hnames hk
    · exact hw.names hm hk
  scenes {m g' k p} hm hk hplayer := by
    rw [hregion] at hm
    rw [scene_append houtbox, hconfig]
    split at hm
    · cases hm
      exact hscenes hk hplayer
    · rename_i hne
      rw [messagesTo_eq_nil (hothers hne hm hk)]
      exact hw.scenes hm hk hplayer

/-- Only the maps, the messages and what was set matter. -/
theorem Informed.congr (hw : w.Informed) (hatlas : w'.atlas = w.atlas)
    (hconfig : w'.config = w.config) (houtbox : w'.outbox = w.outbox)
    (hregions : w'.regions = w.regions) : w'.Informed where
  titles m := by
    have h := hw.titles m
    rwa [mapTitle, ← hatlas] at h
  names hm hk := hw.names (by rwa [region?, hregions] at hm) hk
  scenes {m g k p} hm hk hplayer := by
    rw [show w'.scene p.id = w.scene p.id by rw [scene, scene, messagesFor, messagesFor, houtbox],
      hconfig]
    exact hw.scenes (by rwa [region?, hregions] at hm) hk hplayer

/-! ### Coming and leaving -/

/-- All players stay informed when a map comes into use. -/
theorem Informed.opens (hw : w.Informed) (map : MapId) (plan : MapPlan) :
    (w.opened map plan).Informed := by
  have hnone (k : EntityId) : (w.regionOfPlan map plan).find? k = none := by
    simp [regionOfPlan, Region.empty, Region.find?]
  refine hw.update rfl rfl (List.append_nil _).symm (fun m => Table.getElem?_insert ..)
    (fun {k e} hk => ?_) (fun {k p} hk => ?_) fun _ _ _ d hd => absurd hd List.not_mem_nil
  · exact absurd (hk.symm.trans (hnone k)) (by simp)
  · exact absurd (hk.symm.trans (hnone k)) (by simp)

/-- A player that comes is told where it is, and nobody else is told anything. -/
theorem arrivals_eq (hw : w.Informed) (e : Entity) :
    ∃ m, w.arrivals e = (if e.isPlayer then [⟨e.id, m⟩] else []) ∧
      ∀ s : Scene, s.receive m = {} := by
  obtain ⟨m, hm⟩ : ∃ m, mapNotice (w.mapTitle e.map) e.position = .ok m :=
    ⟨_, mapNotice_eq_ok_iff.mpr ⟨hw.titles e.map, rfl⟩⟩
  refine ⟨m, ?_, fun s => Scene.receive_mapNotice hm⟩
  rw [arrivals, hm]

/-- Whoever comes is marked as new, and nobody sees it until the next turn of the map. -/
theorem Informed.welcome (hw : w.Informed) (hsound : w.Sound) {e : Entity} {x : PublicId}
    {g g' : Region} (h : w.Comes e x g g') (hname : e.kind.NameFits) :
    (w.welcome e g').Informed := by
  obtain ⟨m, harrivals, hm⟩ := arrivals_eq hw e
  have hfind := Region.find?_mark_insert h.insert
  obtain ⟨-, hfree, -⟩ := Region.insert_eq_ok_iff.mp h.insert
  have hrecipient : ∀ d ∈ w.arrivals e, d.recipient = e.id := by
    rw [harrivals]
    split <;> simp
  refine hw.update rfl rfl rfl (fun _ => Table.getElem?_insert ..) (fun {k e'} hk => ?_)
    (fun {k p} hk hplayer => ?_) fun {m' g₀ k p} hne hg₀ hk d hd heq => ?_
  · obtain ⟨-, rfl⟩ | ⟨-, hk⟩ := Region.find?_mark_insert_cases h.insert hk
    · exact hname
    · exact hw.names h.region hk
  · obtain ⟨-, rfl⟩ | ⟨hne, hk⟩ := Region.find?_mark_insert_cases h.insert hk
    · have hplayer' : e.isPlayer = true := hplayer
      have hmessages : messagesTo (w.arrivals e) e.id = [m] := by
        rw [harrivals, if_pos hplayer']
        simp [messagesTo]
      show ((messagesTo (w.arrivals e) e.id).foldl Scene.receive (w.scene e.id)).Agrees _ _
      rw [hmessages, List.foldl_cons, List.foldl_nil, hm]
      exact Scene.agrees_empty fun o => not_sees_between (.inl (e.newOnMap_arrived x))
    · have hid : p.id ≠ e.id := by rwa [(hsound.region h.region).2.placed.id_eq hk]
      have hsilent : messagesTo (w.arrivals e) p.id = [] :=
        messagesTo_eq_nil fun d hd heq => hid (heq.symm.trans (hrecipient d hd))
      rw [hsilent]
      exact (hw.scenes h.region hk hplayer).insert hfree hfind
        (not_sees_between (.inr (e.newOnMap_arrived x)))
  · -- the newcomer was on no map
    have hid := (hsound.region hg₀).2.placed.id_eq hk
    have hmap := hsound.located.mpr ⟨g₀, p, hg₀, hk⟩
    rw [← hid, ← heq, hrecipient d hd, h.free] at hmap
    cases hmap

/-- Whoever leaves is taken leave of by everybody who sees it. -/
theorem Informed.remove (hw : w.Informed) (hsound : w.Sound) {id : EntityId} {cause : RemovalCause}
    {e : Entity} (h : w.remove id cause = some (e, w')) : w'.Informed := by
  obtain ⟨map, g, leaving, g', -, hg, hleaving, hrem, rfl⟩ := remove_eq_some_iff.mp h
  have hregion := (hsound.region hg).2
  have hfind := Region.find?_remove hrem
  have hstays {k e'} (hk : g'.find? k = some e') : k ≠ id ∧ g.find? k = some e' :=
    Region.find?_of_remove hrem hk
  refine hw.update rfl rfl rfl (fun _ => Table.getElem?_insert ..)
    (fun hk => hw.names hg (hstays hk).2) (fun {k p} hk hplayer => ?_)
    fun {m g₀ k p} hne hg₀ hk d hd heq => ?_
  · obtain ⟨hne, hk⟩ := hstays hk
    have hagrees := hw.scenes hg hk hplayer
    obtain ⟨x, hx, hmessages⟩ | ⟨hmessages, hfar⟩ :=
      messagesTo_farewells (w := w) hregion hleaving hk hplayer hne
    · rw [hmessages, List.foldl_cons, List.foldl_nil, Scene.receive_leaveNotice]
      exact hagrees.leave hregion.numbered hleaving hx hfind
    · rw [hmessages]
      exact hagrees.remove hleaving hfind fun hbeing hsees =>
        absurd ((hfar hbeing).symm.trans hsees.2.2) (by decide)
  · -- whoever takes leave is on the same map, and nobody is on two
    obtain ⟨k', q, hq, hrecipient⟩ := exists_of_mem_farewells hd
    have hidq := hregion.placed.id_eq hq
    have hidp := (hsound.region hg₀).2.placed.id_eq hk
    rw [← hidq, ← hrecipient, heq, hidp] at hq
    exact hne (hsound.map_eq hg₀ hk hg hq)

end World

/-! ### The turn of a map -/

theorem Entity.Persists.nameFits {e e' : Entity} (h : e.Persists e') (hname : e.kind.NameFits) :
    e'.kind.NameFits := by
  intro looks hlooks
  have heq : e.looks? = some looks := by rw [← h.looks, Entity.looks?, hlooks]
  refine hname looks ?_
  rw [Entity.looks?] at heq
  split at heq
  · cases heq
    assumption
  · cases heq

namespace Bookkeeping

/-- In the middle of a turn, all players have the right view of the map as it was when the turn
began, and whoever is on its way has moved. -/
structure Ready (w : World) (b : Bookkeeping) : Prop where
  names : ∀ {k e}, b.region.find? k = some e → e.kind.NameFits
  moved : ∀ {k e}, b.region.find? k = some e → e.isBeing = true → e.IsWalking →
    e.oldPosition ≠ e.position
  scenes : ∀ {k p}, b.region.find? k = some p → p.isPlayer = true →
    (w.scene p.id).Agrees b.region (before p w.config.range)

/-- Monsters that come up are at rest and are not seen yet. -/
theorem kept_ready (w : World) : Kept (Ready w) where
  draws b random h := ⟨h.names, h.moved, fun hk hplayer =>
    let hs := h.scenes hk hplayer
    ⟨hs.shown, hs.hidden⟩⟩
  wastes b h := ⟨h.names, h.moved, h.scenes⟩
  sends b ps map p _ h := ⟨h.names, h.moved, h.scenes⟩
  spawns b sort p x g' h hins := by
    have hfind := Region.find?_mark_insert hins
    obtain ⟨-, hfree, -⟩ := Region.insert_eq_ok_iff.mp hins
    refine ⟨fun {k e} hk => ?_, fun {k e} hk => ?_, fun {k q} hk hplayer => ?_⟩ <;>
      obtain ⟨-, rfl⟩ | ⟨-, hk⟩ := Region.find?_mark_insert_cases hins hk
    · -- a monster has no name
      intro looks hlooks
      cases hlooks
    · exact h.names hk
    · intro _ hwalk
      exact absurd rfl hwalk.1
    · exact h.moved hk
    · cases hplayer
    · refine (h.scenes hk hplayer).insert hfree hfind ?_
      intro hsees
      exact absurd (sees_before_iff.mp hsees).2.1 (by simp)

end Bookkeeping

namespace World

variable {t : Terms} {w w' : World}

/-- After the passes over a map everything is ready for its fixtures. -/
theorem Informed.ready_books (hw : w.Informed) {map : MapId} {g : Region}
    (hg : w.region? map = some g) : (w.books g).Ready w := by
  have hback {k e'} (hk : g.advance.find? k = some e') :
      ∃ e r, g.find? k = some e ∧ e' = e.live g.terrain r := by
    obtain ⟨e, he, r, rfl⟩ := (Region.rewrites_advance g).back hk
    exact ⟨e, r, he, rfl⟩
  refine ⟨fun {k e'} hk => ?_, fun {k e'} hk hbeing hwalk => ?_, fun {k p'} hk hplayer => ?_⟩ <;>
    obtain ⟨e, r, he, rfl⟩ := hback hk
  · exact (e.persists_live g.terrain r).nameFits (hw.names hg he)
  · rw [(e.persists_live g.terrain r).isBeing] at hbeing
    obtain ⟨hne, hspeed⟩ := hwalk
    rw [(e.persists_live g.terrain r).speed] at hspeed
    exact Entity.oldPosition_ne_of_walking_live hbeing hspeed hne
  · rw [(e.persists_live g.terrain r).isPlayer] at hplayer
    rw [(e.persists_live g.terrain r).id]
    exact (hw.scenes hg he hplayer).advance r

/-- So it is when the fixtures have worked. -/
theorem Informed.ready_worked (hw : w.Informed) {map : MapId} {g : Region}
    (hg : w.region? map = some g) : (w.worked g).Ready w :=
  (Bookkeeping.kept_ready w).runAll (b := w.books g) (hw.ready_books hg) g.fixtures

/-- A turn of a map leaves its players informed of what is on the map now. -/
theorem Informed.turn (hw : w.Informed) (hsound : w.Sound) {map : MapId} {g : Region}
    (hg : w.region? map = some g) (report : TickReport)
    (hlt : (w.passRegion g report).2.issued < UInt32.size) : (w.passRegion g report).2.Informed := by
  have hready := hw.ready_worked hg
  obtain ⟨fixtures, heq⟩ := w.passRegion_eq g report
  rw [heq] at hlt ⊢
  have hworked := hsound.worked hg hlt
  have hhere := (w.worked g).region?_apply_self w
  have hregion := hsound.fitted_worked hg hlt fixtures
  refine hw.update rfl rfl rfl (fun m => Table.getElem?_insert ..) (fun {k e'} hk => ?_)
    (fun {k p'} hk hplayer => ?_) fun {m g₀ k p} hne hg₀ hk d hd hrec => ?_
  · obtain ⟨e, he, rfl⟩ := (Region.rewrites_clearChanges _).back hk
    have hname : e.kind.NameFits := hready.names he
    exact hname
  · -- the news tells of the map as it was before what happened was forgotten
    obtain ⟨p, hp, rfl⟩ := (Region.rewrites_clearChanges _).back hk
    have hscene : (w.scene p.id).Agrees ((w.worked g).region.fitted fixtures)
        (before p w.config.range) :=
      let hs := hready.scenes hp hplayer
      ⟨hs.shown, hs.hidden⟩
    obtain ⟨ms, hms, hagrees⟩ := hscene.hear hregion hready.names hready.moved
    show ((messagesTo _ p.id).foldl Scene.receive (w.scene p.id)).Agrees _ _
    rw [Region.messagesTo_synchronize hregion.placed hp hplayer hms]
    exact hagrees.clearChanges
  · -- whoever is told is on this map, and nobody is on two
    obtain ⟨k', q, hq, hrecipient⟩ := Region.exists_of_mem_synchronize hd
    have hidq : q.id = k' := (hworked.region hhere).2.placed.id_eq hq
    have hidp := (hsound.region hg₀).2.placed.id_eq hk
    have helse : ((w.worked g).apply w).region? m = some g₀ :=
      ((w.worked g).region?_apply w m).trans ((if_neg hne).trans hg₀)
    have hq' : (w.worked g).region.find? k' = some q := hq
    rw [← hidq, ← hrecipient, hrec, hidp] at hq'
    exact hne (hworked.map_eq helse hk hhere hq')

/-! ### Every change -/

theorem Informed.congr_lost (hw : w.Informed) {p : Prop} [Decidable p] (ids : List EntityId) :
    (if p then { w with lost := w.lost ++ ids } else w).Informed := by
  split
  · exact hw.congr rfl rfl rfl rfl
  · exact hw

/-- What somebody does where it is leaves the players informed. -/
theorem Informed.act (hw : w.Informed) (hsound : w.Sound) {map : MapId} {g : Region}
    (hg : w.region? map = some g) (id : EntityId) {f : Entity → Entity}
    (hf : ∀ e : Entity, e.Stays (f e) ∧ (f e).changes.newOnMap = e.changes.newOnMap ∧
      ((f e).changes.newDestination = false →
        e.changes.newDestination = false ∧ (f e).destination = e.destination)) :
    (w.setRegion (g.modify id f)).Informed := by
  obtain ⟨hid, -⟩ := hsound.region hg
  refine hw.update rfl rfl (List.append_nil _).symm (fun m => Table.getElem?_insert ..)
    (fun {k e'} hk => ?_) (fun {k p'} hk hplayer => ?_) fun _ _ _ d hd => absurd hd List.not_mem_nil
  · obtain ⟨e, he, rfl | rfl⟩ := (Region.rewrites_modify g id f).back hk
    · exact hw.names hg he
    · exact (hf e).1.toPersists.nameFits (hw.names hg he)
  · obtain ⟨p, hp, hp'⟩ := (Region.rewrites_modify g id f).back hk
    have hsame : p'.id = p.id ∧ p'.isPlayer = p.isPlayer := by
      rcases hp' with rfl | rfl
      · exact ⟨rfl, rfl⟩
      · exact ⟨(hf p).1.id, (hf p).1.toPersists.isPlayer⟩
    rw [hsame.2] at hplayer
    rw [hsame.1]
    exact (hw.scenes hg hp hplayer).act id hp' hf

/-- Speech changes nothing about what is in view. -/
theorem Informed.speak (hw : w.Informed) {speaker : Option PublicId} {text : String} {m : Message}
    (h : chatNotice speaker text = .ok m) (ids : List EntityId) :
    (w.post (toAll ids m)).Informed := by
  have hscene (id : EntityId) : (w.post (toAll ids m)).scene id = w.scene id := by
    have hall : ∀ m' ∈ messagesTo (toAll ids m) id, m' = m := fun m' hm' => by
      obtain ⟨d, hd, rfl⟩ := List.mem_map.mp hm'
      obtain ⟨k, -, rfl⟩ := List.mem_map.mp (List.mem_filter.mp hd).1
      rfl
    refine (scene_append rfl id).trans ?_
    refine List.foldlRecOn (motive := fun s => s = w.scene id) _ _ rfl ?_
    intro s hs m' hm'
    rw [hall m' hm', Scene.receive_chatNotice h, hs]
  refine ⟨hw.titles, hw.names, fun hm hk hplayer => ?_⟩
  rw [hscene]
  exact hw.scenes hm hk hplayer

/-- Every change leaves the players informed, as long as names fit and identities do not come
round. -/
theorem Informed.alters (hw : w.Informed) (hsound : w.Sound)
    (ht : ∀ kind, t.comes kind → kind.NameFits) (h : Alters t w w') (hlt : w'.issued < UInt32.size) :
    w'.Informed := by
  cases h with
  | opens => exact hw.opens _ _
  | issues => exact hw.congr rfl rfl rfl rfl
  | comes h _ hkind => exact hw.welcome hsound h (ht _ hkind)
  | leaves h => exact hw.remove hsound h
  | jumps h h' =>
    refine (hw.remove hsound h).welcome (hsound.remove h) h' ?_
    obtain ⟨map, g, leaving, g', -, hg, -, hrem, -⟩ := remove_eq_some_iff.mp h
    obtain ⟨e₀, he₀, rfl, -⟩ := Region.remove_eq_some_iff.mp hrem
    have hname : e₀.kind.NameFits := hw.names hg he₀
    exact hname
  | falls h => exact (hw.remove hsound h).congr_lost _
  | walks h id p _ =>
    refine hw.act hsound h id fun e => ⟨e.stays_walkTo p, Bool.or_false _, ?_⟩
    intro hnews
    exact absurd ((Bool.or_true _).symm.trans hnews) (by decide)
  | attacks h id =>
    refine hw.act hsound h id fun e => ⟨e.stays_raise _, Bool.or_false _, ?_⟩
    intro hnews
    exact ⟨(Bool.or_false _).symm.trans hnews, rfl⟩
  | speaks h ids => exact hw.speak h ids
  | turns h report => exact hw.turn hsound h report hlt
  | notes => exact hw.congr rfl rfl rfl rfl

end World

end TileWorld
