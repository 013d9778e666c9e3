import TileWorld.Proofs.World.Informed
import TileWorld.Proofs.World.Representation

/-!
# What clients have in view

The messages that a world has queued for a player, read one after the other, give the right view of
the player's map at any moment: the beings in view are just those that the player's character sees
(`World.shows_iff_of_reaches`). Right after a tick, it is also known where each of them is and
where it walks (`World.sighting_of_reaches`).
-/

namespace TileWorld

open Delivery Outlook

/-- The decimal form of a 16-bit number is short. -/
theorem Field.fits_toString (v : UInt16) : Field.Fits (toString v) := by
  have hbound (n : Nat) : n.repr.utf8ByteSize ≤ 4 + n / 2 := by
    induction n using Nat.strongRecOn with
    | ind n ih =>
      by_cases hn : n < 10
      · rw [Nat.repr_of_lt hn, String.utf8ByteSize_singleton]
        have := n.digitChar.utf8Size_le_four
        omega
      · rw [Nat.repr_of_ge (by omega), String.utf8ByteSize_append, String.utf8ByteSize_singleton]
        have := (n % 10).digitChar.utf8Size_le_four
        have := ih (n / 10) (by omega)
        omega
  have h := hbound v.toNat
  have hlt := v.toNat_lt
  show v.toNat.repr.utf8ByteSize ≤ 65535
  omega

/-! ### Flags after a tick -/

/-- Nobody on the map has a new destination. -/
def Region.Quiet (g : Region) : Prop :=
  ∀ k e, g.find? k = some e → e.changes.newDestination = false

namespace World

variable {t : Terms} {w w' : World} {ms : List MapId}

/-- All maps are quiet but some that are listed. -/
def Quiet (w : World) (ms : List MapId) : Prop :=
  ∀ map g, w.region? map = some g → map ∈ ms ∨ g.Quiet

/-- A change of one map that keeps it quiet if it is. -/
theorem Quiet.update (hw : w.Quiet ms) {map : MapId} {g : Region}
    (hregion : ∀ m, w'.region? m = if m = map then some g else w.region? m)
    (hg : map ∈ ms ∨ g.Quiet) : w'.Quiet ms := by
  intro m g' hm
  rw [hregion] at hm
  split at hm
  · cases hm
    rename_i heq
    rwa [heq]
  · exact hw m g' hm

/-- Nobody sets out when somebody leaves. -/
theorem Quiet.remove (hw : w.Quiet ms) {id : EntityId} {cause : RemovalCause} {e : Entity}
    (h : w.remove id cause = some (e, w')) : w'.Quiet ms := by
  obtain ⟨map, g, leaving, g', -, hg, -, hrem, rfl⟩ := remove_eq_some_iff.mp h
  refine hw.update (fun _ => Table.getElem?_insert ..) ((hw map g hg).imp_right ?_)
  intro hq k e' hk
  exact hq k e' (Region.find?_of_remove hrem hk).2

/-- Whoever comes is on its way to nowhere. -/
theorem Quiet.welcome (hw : w.Quiet ms) {e : Entity} {x : PublicId} {g g' : Region}
    (h : w.Comes e x g g') (hrest : e.AtRest) : (w.welcome e g').Quiet ms := by
  refine hw.update (fun _ => Table.getElem?_insert ..) ((hw e.map g h.region).imp_right ?_)
  intro hq k e' hk
  obtain ⟨-, rfl⟩ | ⟨-, hk⟩ := Region.find?_mark_insert_cases h.insert hk
  · simp [Entity.arrived, Entity.raise, Union.union, Changes.union, hrest.changes]
  · exact hq k e' hk

/-- After its turn a map is quiet. -/
theorem Quiet.turn {g : Region} (hw : w.Quiet (g.id :: ms)) (report : TickReport) :
    (w.passRegion g report).2.Quiet ms := by
  obtain ⟨fixtures, heq⟩ := w.passRegion_eq g report
  intro m g' hm
  rw [heq] at hm
  replace hm := (Table.getElem?_insert ..).symm.trans hm
  split at hm
  · cases hm
    refine .inr ?_
    intro k e' hk
    obtain ⟨e, -, rfl⟩ := (Region.rewrites_clearChanges _).back hk
    rfl
  · rename_i hne
    refine (hw m g' hm).imp_left fun hmem => (List.mem_cons.mp hmem).resolve_left ?_
    rwa [← w.region_id_worked g]

/-- It stays quiet if nobody sets out for a point. -/
theorem Quiet.alters (hw : w.Quiet ms) (hsound : w.Sound) (ht : ∀ id, ¬ t.walks id)
    (h : Alters t w w') : w'.Quiet ms := by
  cases h with
  | @opens map plan =>
    have hempty : (w.regionOfPlan map plan).Quiet := fun k e hk => by
      simp [regionOfPlan, Region.empty, Region.find?] at hk
    exact hw.update (fun _ => Table.getElem?_insert ..) (.inr hempty)
  | comes h hrest => exact hw.welcome h hrest
  | leaves h => exact hw.remove h
  | jumps h h' => exact (hw.remove h).welcome h' (Entity.atRest_place ..)
  | @falls w₁ id e h =>
    have hquiet : w₁.Quiet ms := hw.remove h
    rcases e.isPlayer <;> exact hquiet
  | walks h id p hwalks => exact absurd hwalks (ht id)
  | @attacks map g h id =>
    obtain ⟨hid, -⟩ := hsound.region h
    refine hw.update (fun _ => Table.getElem?_insert ..) ((hw g.id g (hid ▸ h)).imp_right ?_)
    intro hq k e' hk
    obtain ⟨e, he, rfl | rfl⟩ := (Region.rewrites_modify g id _).back hk
    · exact hq k _ he
    · exact (Bool.or_false _).trans (hq k e he)
  | @turns map g h report =>
    exact Quiet.turn (fun m g' hm => (hw m g' hm).imp_left (List.mem_cons_of_mem _)) report
  | _ => exact hw

/-- Quiet maps stay quiet as long as nobody is told to walk. -/
theorem Quiet.develops (hw : w.Quiet ms) (hsound : w.Sound) (ht : ∀ id, ¬ t.walks id)
    (h : Develops t w w') (hlt : w'.issued < UInt32.size) : w'.Quiet ms :=
  hsound.keeps (P := fun v => v.Quiet ms) h (fun hv h _ hquiet => hquiet.alters hv ht h) hw hlt

/-- When a map has had its turn, one map less may not be quiet. -/
theorem Quiet.passMap {map : MapId} (hw : w.Quiet (map :: ms)) (hsound : w.Sound)
    (report : TickReport) (hlt : (passMap map (report, w)).2.issued < UInt32.size) :
    (passMap map (report, w)).2.Quiet ms := by
  obtain ⟨hg, heq⟩ | ⟨g, report', hg, hturn, -, heq⟩ := hsound.passMap_cases map report hlt
  · rw [heq]
    refine fun m g' hm => (hw m g' hm).imp_left ?_
    intro hmem
    refine (List.mem_cons.mp hmem).resolve_left ?_
    rintro rfl
    exact absurd (hg.symm.trans hm) (by simp)
  · rw [heq] at hlt ⊢
    rw [← (hsound.region hg).1] at hw
    exact (hw.turn report).develops hturn (fun _ h => h) (develops_settle_ofTick ..) hlt

/-- Whoever has a destination after a tick has had it for longer. -/
theorem quiet_tick (hw : w.Sound) (hlt : w.tick.2.issued < UInt32.size) : w.tick.2.Quiet [] := by
  -- in the beginning all maps in use are still to have their turn
  have hstart : w.Quiet w.regions.keys := fun map g hg =>
    .inl (mem_keys_iff.mpr (Option.isSome_of_eq_some hg))
  obtain ⟨report, w', hsound, hquiet, heq⟩ := hw.tick_eq_settle (I := fun ms w' => w'.Quiet ms)
    (fun map ms w' report hsound hquiet hlt => hquiet.passMap hsound report hlt) hstart hlt
  rw [heq] at hlt ⊢
  exact hquiet.develops hsound (fun _ h => h) (w'.develops_settle_ofTick report) hlt

/-! ### Runs -/

/-- What is asked of a world in a run in which all names fit. -/
def AdmitsFitting (w : World) (c : Command) : Prop := w.Admits c ∧ w.Brings EntityKind.NameFits c

theorem develops_of_admitsFitting {c : Command} (hc : w.AdmitsFitting c) :
    Develops { comes := EntityKind.NameFits } w (w.execute c) :=
  develops_execute (allows_of_admits hc.1) hc.2

/-- All players stay informed whatever happens, if the names of all who come fit. -/
theorem Informed.develops (hw : w.Informed) (hsound : w.Sound)
    (ht : ∀ kind, t.comes kind → kind.NameFits) (h : Develops t w w')
    (hlt : w'.issued < UInt32.size) : w'.Informed :=
  hsound.keeps (P := Informed) h (fun hv h hlt hw => hw.alters hv ht h hlt) hw hlt

/-- What players see of the names of maps fits if the names fit; numbers always do. -/
theorem fits_mapTitle {config : WorldConfig} {atlas : Atlas}
    (hmaps : ∀ map name, atlas.mapName map = some name → Field.Fits name) (map : MapId) :
    Field.Fits ((empty config atlas).mapTitle map) := by
  rw [mapTitle]
  rcases hname : (empty config atlas).atlas.mapName map with _ | name
  · exact Field.fits_toString map.val
  · exact hmaps map name hname

/-- In a run in which all names fit, the world stays sound and its players stay informed. -/
theorem informed_of_reaches {config : WorldConfig} {atlas : Atlas} {w : World}
    (hmaps : ∀ map name, atlas.mapName map = some name → Field.Fits name)
    (h : Reaches execute AdmitsFitting (empty config atlas) w) (hlt : w.issued < UInt32.size) :
    w.Sound ∧ w.Informed ∧ w.config = config := by
  have hdev := develops_of_reaches (fun _ _ => develops_of_admitsFitting) h
  have hsound : (empty config atlas).Sound := sound_empty config atlas
  refine ⟨hsound.develops hdev hlt, ?_, ?_⟩
  · exact (informed_empty (fits_mapTitle hmaps)).develops hsound (fun _ h => h) hdev hlt
  · exact hdev.keeps (P := fun u => u.config = config) (fun h hu => h.config_eq.trans hu) rfl

/-- At any moment of a run, the messages that were sent to a player show it just those beings of
its map that are in range of it, except that nobody is shown to a player that is new on the map, and
that nobody is shown who is new there. -/
theorem shows_iff_of_reaches {config : WorldConfig} {atlas : Atlas} {w : World}
    (hmaps : ∀ map name, atlas.mapName map = some name → Field.Fits name)
    (h : Reaches execute AdmitsFitting (empty config atlas) w) (hlt : w.issued < UInt32.size)
    {map : MapId} {g : Region} (hg : w.region? map = some g) {p : Entity} (hp : p ∈ g.players)
    (x : PublicId) :
    (Scene.ofMessages (w.messagesFor p.id)).Shows x ↔
      ∃ o ∈ g.entities, o.isBeing = true ∧ o.publicId = some x ∧ p.changes.newOnMap = false ∧
        o.changes.newOnMap = false ∧ o.position.inRange p.position config.range = true := by
  obtain ⟨-, hinformed, rfl⟩ := informed_of_reaches hmaps h hlt
  obtain ⟨hmem, hplayer⟩ := Region.mem_players_iff.mp hp
  obtain ⟨k, hk⟩ := Region.mem_entities_iff.mp hmem
  have hagrees := hinformed.scenes hg hk hplayer
  rw [Scene.Shows, Std.ExtTreeMap.mem_iff_isSome_getElem?, Option.isSome_iff_exists]
  constructor
  · rintro ⟨b, hb⟩
    obtain ⟨j, o, ho, hbeing, hx, hsees⟩ := hagrees.hidden hb
    exact ⟨o, Region.mem_entities_of_find? ho, hbeing, hx, hsees⟩
  · rintro ⟨o, ho, hbeing, hx, hsees⟩
    obtain ⟨j, hj⟩ := Region.mem_entities_iff.mp ho
    obtain ⟨b, hb, -⟩ := hagrees.shown hj hbeing hx hsees
    exact ⟨b, hb⟩

/-- A player is called by the name that it has. -/
theorem nameFits_player {looks : Looks} (h : Field.Fits looks.name) :
    (EntityKind.player looks).NameFits := by
  rintro looks' heq
  cases heq
  exact h

/-- How a character of plain looks comes into view. -/
def plainEntrance (x : PublicId) (name : String) : Message :=
  ⟨Opcode.beingEnter, 1 :: Field.ofShort x.val ++ Field.textBytes name ++ [0, 0, 0]⟩

/-- The names of two characters that come to the hamlet fit. -/
theorem reaches_pair : Reaches execute AdmitsFitting (empty {} hamlet)
    ([.enter "Ann", .enter "Ben"].foldl execute (empty {} hamlet)) := by
  have hann : (empty {} hamlet).AdmitsFitting (.enter "Ann") :=
    ⟨trivial, nameFits_player (by decide)⟩
  have hname :
      (((empty {} hamlet).execute (.enter "Ann")).characterOf "Ben").looks.name = "Ben" := by cbv
  have hben : ((empty {} hamlet).execute (.enter "Ann")).AdmitsFitting (.enter "Ben") :=
    ⟨trivial, nameFits_player (by rw [hname]; decide)⟩
  exact (Reaches.refl.step _ hann).step _ hben

theorem reaches_meeting : Reaches execute AdmitsFitting (empty {} hamlet) meeting := by
  have hmet := reaches_pair.step .tick ⟨trivial, trivial⟩
  exact hmet.step (.walk (.nth 1) ⟨1700, 1600⟩) ⟨trivial, trivial⟩

theorem fits_of_mapName_hamlet (map : MapId) (name : String) (h : hamlet.mapName map = some name) :
    Field.Fits name := by
  simp only [hamlet, Option.ite_none_right_eq_some, Option.some.injEq] at h
  obtain ⟨-, rfl⟩ := h
  decide

/-- One character of the hamlet sees the other. -/
theorem shows_at_meeting : ∃ (g : Region) (p : Entity), meeting.region? ⟨1⟩ = some g ∧
    p ∈ g.players ∧ p.id = .nth 1 ∧ (Scene.ofMessages (meeting.messagesFor p.id)).Shows ⟨1⟩ := by
  obtain ⟨g, hg⟩ : ∃ g, meeting.region? ⟨1⟩ = some g := Option.isSome_iff_exists.mp (by cbv)
  have hlt : meeting.issued < UInt32.size := by rw [issued_meeting]; decide
  have hplayers : (meeting.region? ⟨1⟩).map (fun g => g.players.map fun e =>
      (e.id, e.publicId, e.changes.newOnMap, e.position)) =
      some [(.nth 1, some ⟨0⟩, false, ⟨1600, 1600⟩), (.nth 2, some ⟨1⟩, false, ⟨1600, 1600⟩)] := by
    cbv
  rw [hg, Option.map_some, Option.some.injEq] at hplayers
  obtain ⟨p, hp, hann⟩ := List.mem_map.mp (hplayers ▸ List.mem_cons_self :
    (EntityId.nth 1, some (PublicId.mk 0), false, Point.mk 1600 1600) ∈ _)
  obtain ⟨o, ho, hben⟩ := List.mem_map.mp (hplayers ▸ List.mem_cons_of_mem _ List.mem_cons_self :
    (EntityId.nth 2, some (PublicId.mk 1), false, Point.mk 1600 1600) ∈ _)
  simp only [Prod.mk.injEq] at hann hben
  obtain ⟨hmem, hplayer⟩ := Region.mem_players_iff.mp ho
  have hnear : o.position.inRange p.position interestRange = true := by
    rw [hann.2.2.2, hben.2.2.2]
    decide
  refine ⟨g, p, hg, hp, hann.1, ?_⟩
  refine (shows_iff_of_reaches fits_of_mapName_hamlet reaches_meeting hlt hg hp ⟨1⟩).mpr ?_
  exact ⟨o, hmem, Entity.isBeing_of_isPlayer hplayer, hben.2.1, hann.2.2.1, hben.2.2.1, hnear⟩

/-- Right after a tick, a player has been told of every being in range, unless one of the two is new
on the map, on which tile it is, and where it walks if it walks. -/
theorem sighting_of_reaches {config : WorldConfig} {atlas : Atlas} {w : World}
    (hmaps : ∀ map name, atlas.mapName map = some name → Field.Fits name)
    (h : Reaches execute AdmitsFitting (empty config atlas) w)
    (hlt : w.tick.2.issued < UInt32.size) {map : MapId} {g : Region}
    (hg : w.tick.2.region? map = some g) {p o : Entity} (hp : p ∈ g.players) (ho : o ∈ g.entities)
    (hbeing : o.isBeing = true) (hpnew : p.changes.newOnMap = false)
    (honew : o.changes.newOnMap = false)
    (hnear : o.position.inRange p.position config.range = true) :
    ∃ x b m, o.publicId = some x ∧
      (Scene.ofMessages (w.tick.2.messagesFor p.id)).beings[x]? = some b ∧
      b.lastMove = some m ∧ m.place = some o.position.tile ∧
      (o.position ≠ o.destination → 0 < o.speed → b.destination = some o.destination) := by
  have htick : w.AdmitsFitting .tick := ⟨trivial, trivial⟩
  have hle := (develops_of_admitsFitting htick).issued_le
  obtain ⟨hbefore, -, -⟩ := informed_of_reaches hmaps h (Nat.lt_of_le_of_lt hle hlt)
  obtain ⟨hsound, hinformed, hconfig⟩ := informed_of_reaches hmaps (h.step .tick htick) hlt
  obtain ⟨hmem, hplayer⟩ := Region.mem_players_iff.mp hp
  obtain ⟨k, hk⟩ := Region.mem_entities_iff.mp hmem
  obtain ⟨j, hj⟩ := Region.mem_entities_iff.mp ho
  obtain ⟨x, hx, -⟩ := (hsound.region hg).2.numbered.taken hj
  rw [← hconfig] at hnear
  obtain ⟨b, hb, ⟨m, hm, hplace⟩, hdest⟩ :=
    (hinformed.scenes hg hk hplayer).shown hj hbeing hx ⟨hpnew, honew, hnear⟩
  -- nobody on the map has a new destination that has not been told of
  refine ⟨x, b, m, hx, hb, hm, hplace, fun hwalk hspeed => hdest ⟨⟨hwalk, ?_⟩, ?_⟩⟩
  · rintro hzero
    rw [hzero] at hspeed
    exact absurd hspeed (by decide)
  · exact ((quiet_tick hbefore hlt map g hg).resolve_left List.not_mem_nil) j o hj

/-- After a tick the one has been told where the other is and where it walks. -/
theorem sighting_at_meeting : ∃ (g : Region) (p o : Entity) (x : PublicId) (b : Sighting)
    (m : MoveEntry), meeting.tick.2.region? ⟨1⟩ = some g ∧ p.id = .nth 2 ∧ o.id = .nth 1 ∧
      o.publicId = some x ∧
      (Scene.ofMessages (meeting.tick.2.messagesFor p.id)).beings[x]? = some b ∧
      b.lastMove = some m ∧ m.place = some o.position.tile ∧
      (o.position ≠ o.destination → 0 < o.speed → b.destination = some o.destination) := by
  obtain ⟨g, hg⟩ : ∃ g, meeting.tick.2.region? ⟨1⟩ = some g := Option.isSome_iff_exists.mp (by cbv)
  have hissued : meeting.tick.2.issued = 2 := by cbv
  have hplayers : (meeting.tick.2.region? ⟨1⟩).map (fun g => g.players.map fun e =>
      (e.id, e.changes.newOnMap, e.position)) =
      some [(.nth 1, false, ⟨1608, 1600⟩), (.nth 2, false, ⟨1600, 1600⟩)] := by cbv
  rw [hg, Option.map_some, Option.some.injEq] at hplayers
  obtain ⟨o, ho, hann⟩ := List.mem_map.mp
    (hplayers ▸ List.mem_cons_self : (EntityId.nth 1, false, Point.mk 1608 1600) ∈ _)
  obtain ⟨p, hp, hben⟩ := List.mem_map.mp
    (hplayers ▸ List.mem_cons_of_mem _ List.mem_cons_self :
      (EntityId.nth 2, false, Point.mk 1600 1600) ∈ _)
  simp only [Prod.mk.injEq] at hann hben
  obtain ⟨hmem, hplayer⟩ := Region.mem_players_iff.mp ho
  obtain ⟨x, b, m, hrest⟩ := sighting_of_reaches fits_of_mapName_hamlet reaches_meeting
    (by rw [hissued]; decide) hg hp hmem (Entity.isBeing_of_isPlayer hplayer) hben.2.1 hann.2.1
    (by rw [hann.2.2, hben.2.2]; decide)
  exact ⟨g, p, o, x, b, m, hg, hben.1, hann.1, hrest⟩

end World

end TileWorld
