import TileWorld.Proofs.Client.Movement
import TileWorld.Proofs.World.Names

/-!
# Who is told that somebody stops

A being that walks comes to rest when it arrives, when its next step is not possible, or when it is
told to walk to where it is. The players who have it in view are told of its movement in a tick, so
they learn where it came to rest if that is a new place, and learn nothing if it stopped where it
stood: `World.tells_rest_of_reaches`. That is so if all names fit, since whoever sees a character
come into view whose name does not fit is told nothing in that tick (`World.not_tells_of_unfit`).
-/

namespace TileWorld

open Delivery Outlook

namespace World

variable {t : Terms} {u v w w' : World} {m map : MapId} {k j id : EntityId} {e e' o p : Entity}

/-! ### The turn of a map in a tick -/

section

variable {g : Region} {report : TickReport} (hw : w.Sound) (hwaiting : Waiting m w w v)
  (hg : v.region? m = some g) (hdone : Done m (v.passRegion g report).2 w')
  (hlt : w'.issued < UInt32.size)

include hw hwaiting hg hdone hlt

omit hg in
/-- All is well when the map has its turn. -/
theorem sound_at_turn : v.Sound ∧ v.issued < UInt32.size ∧ (v.worked g).issued < UInt32.size ∧
    (v.passRegion g report).2.issued < UInt32.size := by
  have hturned := Nat.lt_of_le_of_lt hdone.issued_le hlt
  have hworked : (v.worked g).issued < UInt32.size := by
    obtain ⟨fixtures, heq⟩ := v.passRegion_eq g report
    rwa [heq] at hturned
  have hwaited := Nat.lt_of_le_of_lt (v.issued_le_worked g) hworked
  exact ⟨hw.develops hwaiting hwaited, hwaited, hworked, hturned⟩

/-- All is well on a map after its fixtures have worked. -/
theorem sound_region_at_turn : (v.worked g).region.Sound := by
  obtain ⟨hv, -, hworked, -⟩ := sound_at_turn hw hwaiting hdone hlt
  exact ((hv.worked hg hworked).region ((v.worked g).region?_apply_self v)).2

omit hw hdone hlt in
/-- If all names fitted, they fit on the map when its fixtures have worked. -/
theorem nameFits_at_turn (hnamed : w.Named) (hk : (v.worked g).region.find? k = some e) :
    e.kind.NameFits :=
  named_arranged ((hnamed.develops (fun _ h => False.elim h) hwaiting).region hg) v k e hk

/-- Whoever is on a map before a tick and after it, and is not new there in the end, has lived
through the turn of the map, and was told of movement in no other part of the tick. -/
theorem lives_at_turn (he : w.Finds m k e) (he' : w'.Finds m k e')
    (hnew : e'.changes.newOnMap = false) :
    ∃ r, (v.worked g).region.find? k = some (e.live g.terrain r) ∧
      e' = (e.live g.terrain r).clearChanges ∧
      Hushed k w v ∧ Hushed k (v.passRegion g report).2 w' := by
  obtain ⟨hv, hwaited, hworked, hturned⟩ := sound_at_turn hw hwaiting hdone hlt
  obtain ⟨honly, hbefore, hissued⟩ := finds_of_waiting hw hwaiting hwaited he
  obtain ⟨hfinds, hafter⟩ := finds_of_done (hv.turn hg report hturned) hdone hlt he' hnew
  obtain ⟨hne, -⟩ | ⟨-, e₁, he₁, rfl⟩ := (finds_turn_iff (hv.region hg).1 report).mp hfinds
  · exact absurd rfl hne
  · obtain ⟨e₀, r, he₀, rfl⟩ | ⟨hnot, -⟩ := v.stems_worked g hworked k e₁ he₁
    · obtain ⟨-, rfl⟩ := honly ⟨g, hg, he₀⟩
      exact ⟨r, he₁, rfl, hbefore, hafter⟩
    · exact absurd hissued hnot

/-- In a tick a player that stays on its map is told of movement in the turn of the map, if its news
can be written, and in no other part of the tick. -/
theorem tells_tick_iff (hp : w.Finds m k p) (hplayer : p.isPlayer = true) (hp' : w'.Finds m k e')
    (hnew : e'.changes.newOnMap = false) :
    ∃ r ms, e' = (p.live g.terrain r).clearChanges ∧ w'.messagesFor k = w.messagesFor k ++ ms ∧
      ∀ move, Tells ms move ↔ Tells
        (((v.worked g).region.diff (p.live g.terrain r) w.config.range).toOption.getD []) move := by
  obtain ⟨r, hlives, heq', ⟨ms, hms, hbefore⟩, ⟨ms', hms', hafter⟩⟩ :=
    lives_at_turn hw hwaiting hg hdone hlt hp hp' hnew
  obtain ⟨hv, -, hworked, -⟩ := sound_at_turn hw hwaiting hdone hlt
  obtain ⟨fixtures, heq⟩ := v.passRegion_eq g report
  have hplaced := (hv.fitted_worked hg hworked fixtures).placed
  have hid : (p.live g.terrain r).id = k := hplaced.id_eq hlives
  have hconfig : v.config = w.config :=
    hwaiting.keeps (P := fun v => v.config = w.config) (fun h hv => h.config_eq.trans hv) rfl
  have hturn : (v.passRegion g report).2.messagesFor k = v.messagesFor k ++
      ((v.worked g).region.diff (p.live g.terrain r) w.config.range).toOption.getD [] := by
    rw [heq, ← hconfig, ← hid]
    refine (messagesFor_append rfl _).trans (congrArg (_ ++ ·) ?_)
    exact Region.messagesTo_synchronize_eq hplaced hlives
      ((p.persists_live g.terrain r).isPlayer.trans hplayer)
  refine ⟨r, _, heq', by rw [hms', hturn, hms, List.append_assoc, List.append_assoc], ?_⟩
  intro move
  rw [tells_append, tells_append, or_iff_right (not_tells hbefore), or_iff_left (not_tells hafter)]

end

/-! ### Who is in view -/

/-- On a map a player has a being in view, and neither of the two is new there. -/
def Beholds (w : World) (map : MapId) (k j : EntityId) (o : Entity) : Prop :=
  ∃ p, w.Finds map k p ∧ w.Finds map j o ∧ p.isPlayer = true ∧ o.isBeing = true ∧
    p.changes.newOnMap = false ∧ o.changes.newOnMap = false ∧
      o.position.inRange p.position w.config.range = true

/-- The being that a player has in view under an identity. -/
def beheld? (w : World) (map : MapId) (k j : EntityId) : Option Entity := do
  let g ← w.region? map
  let p ← g.find? k
  let o ← g.find? j
  if p.isPlayer = true ∧ o.isBeing = true ∧ p.changes.newOnMap = false ∧
      o.changes.newOnMap = false ∧ o.position.inRange p.position w.config.range = true
  then some o else none

theorem beheld?_eq_some_iff : w.beheld? map k j = some o ↔ w.Beholds map k j o := by
  simp only [beheld?, Option.bind_eq_bind, Option.bind_eq_some_iff, Option.ite_none_right_eq_some,
    Option.some.injEq]
  constructor
  · rintro ⟨g, hg, p, hp, o, ho, hview, rfl⟩
    exact ⟨p, ⟨g, hg, hp⟩, ⟨g, hg, ho⟩, hview⟩
  · rintro ⟨p, ⟨g, hg, hp⟩, ⟨g', hg', ho⟩, hview⟩
    obtain rfl : g = g' := Option.some.inj (hg.symm.trans hg')
    exact ⟨g, hg, p, hp, o, ho, hview, rfl⟩

/-- The speed of a being that a player has in view, where it is, and where it walks. -/
def gait? (w : World) (map : MapId) (k j : EntityId) : Option (UInt16 × Point × Point) :=
  (w.beheld? map k j).map fun o => (o.speed, o.position, o.destination)

theorem exists_of_gait? {n : UInt16} {a b : Point} (h : w.gait? map k j = some (n, a, b)) :
    ∃ o, w.Beholds map k j o ∧ o.speed = n ∧ o.position = a ∧ o.destination = b := by
  obtain ⟨o, ho, heq⟩ := Option.map_eq_some_iff.mp h
  obtain ⟨hn, heq⟩ := Prod.mk.inj heq
  obtain ⟨ha, hb⟩ := Prod.mk.inj heq
  exact ⟨o, beheld?_eq_some_iff.mp ho, hn, ha, hb⟩

/-! ### Coming to rest -/

/-- In a run, all is well before a tick and after it, and every map has its turn. -/
theorem exists_turn_of_reaches {config : WorldConfig} {atlas : Atlas}
    (h : Reaches execute Admits (empty config atlas) w) (hlt : w.tick.2.issued < UInt32.size)
    (he : w.Finds m k e) : w.Sound ∧ w.tick.2.config = w.config ∧
      ∃ v g report, Waiting m w w v ∧ v.region? m = some g ∧
        Done m (v.passRegion g report).2 w.tick.2 := by
  have hallows : Reaches execute Allows (empty config atlas) w := h.mono fun _ _ => allows_of_admits
  have hdev := develops_of_allows hallows
  have htick : Develops {} w w.tick.2 := develops_execute (c := .tick) trivial trivial
  have hw : w.Sound :=
    (sound_empty config atlas).develops hdev (Nat.lt_of_le_of_lt htick.issued_le hlt)
  refine ⟨hw, ?_, exists_turn_of_tick hw (unwarped_of_reaches h) hlt ?_⟩
  · exact htick.keeps (P := fun v => v.config = w.config) (fun h hv => h.config_eq.trans hv) rfl
  · obtain ⟨g, hg, -⟩ := he
    exact Option.isSome_of_eq_some hg

/-- In a run, look at a being that a player has in view before a tick and after it, and that is at
rest after the tick. If all names fit, the player is told in the tick where the being came to rest
if that is not where it was before, and is told nothing of its movement if it is. -/
theorem tells_rest_of_reaches {config : WorldConfig} {atlas : Atlas} {w : World}
    (h : Reaches execute Admits (empty config atlas) w) (hlt : w.tick.2.issued < UInt32.size)
    (hnamed : w.Named) {map : MapId} {k j : EntityId} {o o' : Entity}
    (hbefore : w.Beholds map k j o) (hafter : w.tick.2.Beholds map k j o')
    (hrest : o'.position = o'.destination) :
    ∃ x ms, o'.publicId = some x ∧ w.tick.2.messagesFor k = w.messagesFor k ++ ms ∧
      (o'.position ≠ o.position → Tells ms ⟨x, none, some o'.position⟩) ∧
      (o'.position = o.position → ∀ m, Tells ms m → m.publicId ≠ x) := by
  obtain ⟨p, hp, ho, hplayer, hbeing, hpnew, honew, hnear⟩ := hbefore
  obtain ⟨p', hp', ho', -, -, hpnew', honew', hnear'⟩ := hafter
  obtain ⟨hw, hconfig, v, g, report, hwaiting, hg, hdone⟩ := exists_turn_of_reaches h hlt hp
  obtain ⟨r, ms, rfl, hms, htells⟩ := tells_tick_iff hw hwaiting hg hdone hlt hp hplayer hp' hpnew'
  obtain ⟨r', holives, rfl, -, -⟩ := lives_at_turn hw hwaiting hg hdone hlt ho ho' honew'
  have hregion := sound_region_at_turn hw hwaiting hg hdone hlt
  obtain ⟨x, hx, -⟩ := hregion.numbered.taken holives
  obtain ⟨news, hnews, hentries⟩ := hregion.tells_diff_iff
    (nameFits_at_turn hwaiting hg hnamed) holives
    ((o.persists_live g.terrain r').isBeing.trans hbeing) hx (p.live g.terrain r) w.config.range
  rw [hnews] at htells
  -- the being was in sight before its passes, and is in sight after them
  have hwas : (o.live g.terrain r').wasSeenBy (p.live g.terrain r) w.config.range = true := by
    refine sees_before_iff.mpr ⟨?_, ?_, ?_⟩
    · rw [Entity.newOnMap_live, hpnew]
    · rw [Entity.newOnMap_live, honew]
    · rw [Entity.oldPosition_live, Entity.oldPosition_live, hnear]
  rw [hconfig] at hnear'
  have hentry := Entity.entryFor_of_rest (x := x) hwas hnear' hrest
  rw [Entity.oldPosition_live] at hentry
  refine ⟨x, ms, hx, hms, fun hmoved => ?_, fun hstayed m hm hmx => ?_⟩
  · have hmoved : (o.live g.terrain r').position ≠ o.position := hmoved
    rw [if_neg hmoved.symm] at hentry
    exact (htells _).mpr ((hentries _).mpr hentry).1
  · have hstayed : (o.live g.terrain r').position = o.position := hstayed
    rw [if_pos hstayed.symm] at hentry
    exact absurd (hentry.symm.trans ((hentries m).mp ⟨(htells m).mp hm, hmx⟩)) (by simp)

/-- One of two characters in the hamlet has set out for a point. -/
def stroll (p : Point) : World :=
  [.enter "Ann", .enter "Ben", .tick, .walk (.nth 1) p, .tick].foldl execute (empty {} hamlet)

theorem reaches_stroll (p : Point) : Reaches execute AdmitsFitting (empty {} hamlet) (stroll p) := by
  have hwalk := (reaches_pair.step .tick ⟨trivial, trivial⟩).step (.walk (.nth 1) p)
    ⟨trivial, trivial⟩
  exact hwalk.step .tick ⟨trivial, trivial⟩

/-- The other one is told where the character has come to rest. -/
theorem tells_rest_at_stroll : ∃ x ms,
    (stroll ⟨1616, 1600⟩).tick.2.messagesFor (.nth 2) =
      (stroll ⟨1616, 1600⟩).messagesFor (.nth 2) ++ ms ∧
    Tells ms ⟨x, none, some ⟨1616, 1600⟩⟩ := by
  have hissued : (stroll ⟨1616, 1600⟩).issued = 2 ∧ (stroll ⟨1616, 1600⟩).tick.2.issued = 2 :=
    ⟨by cbv, by cbv⟩
  have hgait : (stroll ⟨1616, 1600⟩).gait? ⟨1⟩ (.nth 2) (.nth 1) =
        some (8, ⟨1608, 1600⟩, ⟨1616, 1600⟩) ∧
      (stroll ⟨1616, 1600⟩).tick.2.gait? ⟨1⟩ (.nth 2) (.nth 1) =
        some (8, ⟨1616, 1600⟩, ⟨1616, 1600⟩) := ⟨by cbv, by cbv⟩
  obtain ⟨o, hbefore, -, hold, -⟩ := exists_of_gait? hgait.1
  obtain ⟨o', hafter, -, hnew, hdest⟩ := exists_of_gait? hgait.2
  have hreach := reaches_stroll ⟨1616, 1600⟩
  obtain ⟨x, ms, -, hms, htells, -⟩ := tells_rest_of_reaches (hreach.mono fun _ _ h => h.1)
    (by rw [hissued.2]; decide) (named_of_reaches hreach) hbefore hafter
    (hnew.trans hdest.symm)
  rw [hnew, hold] at htells
  exact ⟨x, ms, hms, htells (by decide)⟩

/-! ### Stopping untold -/

/-- In a run, a player is told of no movement in a tick in which a character comes into its view
whose name does not fit. -/
theorem not_tells_of_unfit {config : WorldConfig} {atlas : Atlas}
    (h : Reaches execute Admits (empty config atlas) w) (hlt : w.tick.2.issued < UInt32.size)
    {o' : Entity} (hp : w.Finds map k p) (hplayer : p.isPlayer = true) (ho : w.Finds map j o)
    (honew : o.changes.newOnMap = true) (hunfit : ¬ o.kind.NameFits)
    (hafter : w.tick.2.Beholds map k j o') :
    ∃ ms, w.tick.2.messagesFor k = w.messagesFor k ++ ms ∧ ∀ m, ¬ Tells ms m := by
  obtain ⟨p', hp', ho', -, hbeing', hpnew', honew', hnear'⟩ := hafter
  obtain ⟨hw, hconfig, v, g, report, hwaiting, hg, hdone⟩ := exists_turn_of_reaches h hlt hp
  obtain ⟨r, ms, rfl, hms, htells⟩ := tells_tick_iff hw hwaiting hg hdone hlt hp hplayer hp' hpnew'
  obtain ⟨r', holives, rfl, -, -⟩ := lives_at_turn hw hwaiting hg hdone hlt ho ho' honew'
  have hregion := sound_region_at_turn hw hwaiting hg hdone hlt
  obtain ⟨x, hx, -⟩ := hregion.numbered.taken holives
  have hname : ¬ (o.live g.terrain r').kind.NameFits := fun hfits =>
    hunfit ((o.persists_live g.terrain r').symm.nameFits hfits)
  have hwas : (o.live g.terrain r').wasSeenBy (p.live g.terrain r) w.config.range = false := by
    refine Bool.eq_false_iff.mpr fun hsees => ?_
    have hold := (sees_before_iff.mp hsees).2.1
    rw [Entity.newOnMap_live, honew] at hold
    cases hold
  have his : (o.live g.terrain r').isSeenBy (p.live g.terrain r) w.config.range = true := by
    rwa [hconfig] at hnear'
  have hmem := (hregion.indexed.mem_beingsConcerning_iff hregion.placed).mpr
    ⟨Region.mem_entities_of_find? holives, Scene.concerns_of_isSeenBy hbeing' his⟩
  rw [Region.toOption_diff_of_unfit hmem hx hwas his hname] at htells
  refine ⟨ms, hms, fun m hm => ?_⟩
  obtain ⟨message, hmessage, -⟩ := (htells m).mp hm
  exact absurd hmessage List.not_mem_nil

/-- In a world with one map, on which there is nothing built, a tick is the turn of the map. -/
theorem region?_tick_of_lone (hkeys : w.regions.keys = [map])
    (hbare : (w.region? map).map (fun g => (g.id, g.fixtures)) = some (map, []))
    (hdeferred : w.deferred = []) : w.tick.2.config = w.config ∧ w.tick.2.issued = w.issued ∧
      w.tick.2.region? map = (w.region? map).map fun g => g.advance.clearChanges := by
  obtain ⟨g, hg, heq⟩ := Option.map_eq_some_iff.mp hbare
  obtain ⟨rfl, hfixtures⟩ := Prod.mk.inj heq
  have hhere : w.regions[g.id]? = some g := hg
  have hadvance : g.advance.fixtures = [] := hfixtures
  have hsame : ({ g.advance with fixtures := [] } : Region) = g.advance := by rw [← hadvance]
  simp only [tick, hkeys, List.foldl_cons, List.foldl_nil, passMap, region?, hhere, passRegion,
    runFixtures, hadvance, hsame, Bookkeeping.runAll, settle, applyDeferred, hdeferred, applyAll,
    post]
  exact ⟨trivial, trivial, (Table.getElem?_insert ..).trans (if_pos rfl)⟩

/-- In `u` a being that a player has in view is on its way when a tick is over; in `w` the next one
begins. When that is over, the being is at rest, and the player still has it in view but was told of
no movement. -/
structure StopsUntold (u w : World) (map : MapId) (k j : EntityId) : Prop where
  walks : ∃ o, u.Beholds map k j o ∧ 0 < o.speed ∧ o.position ≠ o.destination
  before : ∃ o, w.Beholds map k j o
  after : ∃ o, w.tick.2.Beholds map k j o ∧ o.position = o.destination
  untold : ∃ ms, w.tick.2.messagesFor k = w.messagesFor k ++ ms ∧ ∀ m, ¬ Tells ms m

/-- To see that somebody stopped untold, compare where it was and where it walks. -/
theorem stopsUntold_of_gait? {n n' n'' : UInt16} {a a' b b' c : Point}
    (hu : u.gait? map k j = some (n, a, b)) (hn : 0 < n) (hab : a ≠ b)
    (hw : w.gait? map k j = some (n', a', b')) (hw' : w.tick.2.gait? map k j = some (n'', c, c))
    (huntold : ∃ ms, w.tick.2.messagesFor k = w.messagesFor k ++ ms ∧ ∀ m, ¬ Tells ms m) :
    StopsUntold u w map k j := by
  obtain ⟨o, ho, rfl, rfl, rfl⟩ := exists_of_gait? hu
  obtain ⟨o', ho', -⟩ := exists_of_gait? hw
  obtain ⟨o'', ho'', -, rfl, hrest⟩ := exists_of_gait? hw'
  exact ⟨⟨o, ho, hn, hab⟩, ⟨o', ho'⟩, ⟨o'', ho'', hrest.symm⟩, huntold⟩

theorem untold_of_eq (h : w.tick.2.messagesFor k = w.messagesFor k) :
    ∃ ms, w.tick.2.messagesFor k = w.messagesFor k ++ ms ∧ ∀ m, ¬ Tells ms m := by
  refine ⟨[], by rw [h, List.append_nil], ?_⟩
  rintro m ⟨message, hmessage, -⟩
  exact absurd hmessage List.not_mem_nil

/-- The hamlet with something in the way. -/
def thicket : Atlas where
  plan map := if map = ⟨1⟩ then some ⟨(Terrain.clear 120 120).block ⟨51, 50⟩, []⟩ else none
  mapName _ := none
  character _ := none

/-- Somebody is about to walk into it. -/
def collision : World :=
  [.enter "Ann", .enter "Ben", .tick, .walk (.nth 1) ⟨1700, 1600⟩, .tick].foldl execute
    (empty { startPosition := ⟨1616, 1600⟩ } thicket)

/-- Somebody is told to walk to where it is. -/
theorem stopsUntold_walk : StopsUntold (stroll ⟨1700, 1600⟩)
    ((stroll ⟨1700, 1600⟩).execute (.walk (.nth 1) ⟨1608, 1600⟩)) ⟨1⟩ (.nth 2) (.nth 1) := by
  have hgait : (stroll ⟨1700, 1600⟩).gait? ⟨1⟩ (.nth 2) (.nth 1) =
        some (8, ⟨1608, 1600⟩, ⟨1700, 1600⟩) ∧
      ((stroll ⟨1700, 1600⟩).execute (.walk (.nth 1) ⟨1608, 1600⟩)).gait? ⟨1⟩ (.nth 2) (.nth 1) =
        some (8, ⟨1608, 1600⟩, ⟨1608, 1600⟩) ∧
      ((stroll ⟨1700, 1600⟩).execute (.walk (.nth 1) ⟨1608, 1600⟩)).tick.2.gait? ⟨1⟩ (.nth 2)
        (.nth 1) = some (8, ⟨1608, 1600⟩, ⟨1608, 1600⟩) := ⟨by cbv, by cbv, by cbv⟩
  exact stopsUntold_of_gait? hgait.1 (by decide) (by decide) hgait.2.1 hgait.2.2
    (untold_of_eq (by cbv))

/-- Something is in somebody's way. -/
theorem stopsUntold_collision : StopsUntold collision collision ⟨1⟩ (.nth 2) (.nth 1) := by
  have hgait : collision.gait? ⟨1⟩ (.nth 2) (.nth 1) = some (8, ⟨1624, 1600⟩, ⟨1700, 1600⟩) ∧
      collision.tick.2.gait? ⟨1⟩ (.nth 2) (.nth 1) = some (8, ⟨1624, 1600⟩, ⟨1624, 1600⟩) :=
    ⟨by cbv, by cbv⟩
  exact stopsUntold_of_gait? hgait.1 (by decide) (by decide) hgait.1 hgait.2 (untold_of_eq (by cbv))

/-- When somebody is about to arrive, somebody else comes. -/
def visit (name : String) : World := (stroll ⟨1616, 1600⟩).execute (.enter name)

theorem reaches_visit (name : String) : Reaches execute Admits (empty {} hamlet) (visit name) :=
  ((reaches_stroll ⟨1616, 1600⟩).mono fun _ _ h => h.1).step (.enter name) trivial

/-- The newcomer is on the map, and it is new there. -/
theorem finds_visit (name : String) : (visit name).Finds ⟨1⟩ (.nth 3)
    ((Entity.player (.nth 3) ⟨name, 0, 0, 0⟩ ⟨1⟩ ⟨1600, 1600⟩).arrived ⟨2⟩) := by
  have hfind : ((visit name).region? ⟨1⟩).bind (fun g => g.find? (.nth 3)) =
      some ((Entity.player (.nth 3) ⟨name, 0, 0, 0⟩ ⟨1⟩ ⟨1600, 1600⟩).arrived ⟨2⟩) := by cbv
  obtain ⟨g, hg, ho⟩ := Option.bind_eq_some_iff.mp hfind
  exact ⟨g, hg, ho⟩

/-- In the next tick everybody in the hamlet moves, and nothing else happens. -/
theorem tick_visit (name : String) : (visit name).tick.2.config = (visit name).config ∧
    (visit name).tick.2.issued = (visit name).issued ∧
    (visit name).tick.2.region? ⟨1⟩ =
      ((visit name).region? ⟨1⟩).map fun g => g.advance.clearChanges :=
  region?_tick_of_lone (by cbv) (by cbv) (by cbv)

/-- Whatever the name, in the tick the one arrives in view of the player, and so is the other. -/
theorem gait?_visit (name : String) :
    (visit name).gait? ⟨1⟩ (.nth 2) (.nth 1) = some (8, ⟨1608, 1600⟩, ⟨1616, 1600⟩) ∧
    (visit name).tick.2.gait? ⟨1⟩ (.nth 2) (.nth 1) = some (8, ⟨1616, 1600⟩, ⟨1616, 1600⟩) ∧
    (visit name).tick.2.gait? ⟨1⟩ (.nth 2) (.nth 3) = some (8, ⟨1600, 1600⟩, ⟨1600, 1600⟩) := by
  obtain ⟨hconfig, -, hregion⟩ := tick_visit name
  simp only [gait?, beheld?, hregion, hconfig]
  exact ⟨by cbv, by cbv, by cbv⟩

/-- The other has a name that does not fit. -/
theorem exists_stopsUntold_visit : ∃ name : String,
    StopsUntold (stroll ⟨1616, 1600⟩) (visit name) ⟨1⟩ (.nth 2) (.nth 1) := by
  obtain ⟨name, hunfit⟩ := Field.exists_not_fits
  refine ⟨name, ?_⟩
  obtain ⟨hbefore, harrives, hcomes⟩ := gait?_visit name
  have hwalks : (stroll ⟨1616, 1600⟩).gait? ⟨1⟩ (.nth 2) (.nth 1) =
    some (8, ⟨1608, 1600⟩, ⟨1616, 1600⟩) := by cbv
  have hissued : (visit name).issued = 3 := by cbv
  refine stopsUntold_of_gait? hwalks (by decide) (by decide) hbefore harrives ?_
  obtain ⟨o, ⟨p, hp, -, hplayer, -⟩, -⟩ := exists_of_gait? hbefore
  obtain ⟨o', hafter, -⟩ := exists_of_gait? hcomes
  refine not_tells_of_unfit (reaches_visit name) ?_ hp hplayer (finds_visit name)
    (Entity.newOnMap_arrived _ _) (fun hfits => hunfit (hfits _ rfl)) hafter
  rw [(tick_visit name).2.1, hissued]
  decide

/-- Three times a being stops and a player that has it in view is not told: because it is told to
walk to where it is, because something is in its way, and because somebody comes into view at that
moment whose name does not fit. -/
theorem stops_untold :
    (Reaches execute Admits (empty {} hamlet) (stroll ⟨1700, 1600⟩) ∧
      StopsUntold (stroll ⟨1700, 1600⟩)
        ((stroll ⟨1700, 1600⟩).execute (.walk (.nth 1) ⟨1608, 1600⟩)) ⟨1⟩ (.nth 2) (.nth 1)) ∧
    (Reaches execute Admits (empty { startPosition := ⟨1616, 1600⟩ } thicket) collision ∧
      StopsUntold collision collision ⟨1⟩ (.nth 2) (.nth 1)) ∧
    Reaches execute Admits (empty {} hamlet) (stroll ⟨1616, 1600⟩) ∧
      ∃ name : String, StopsUntold (stroll ⟨1616, 1600⟩)
        ((stroll ⟨1616, 1600⟩).execute (.enter name)) ⟨1⟩ (.nth 2) (.nth 1) := by
  have hreach (p : Point) : Reaches execute Admits (empty {} hamlet) (stroll p) :=
    (reaches_stroll p).mono fun _ _ h => h.1
  exact ⟨⟨hreach _, stopsUntold_walk⟩, ⟨Reaches.foldl _ _ (by simp [Admits]), stopsUntold_collision⟩,
    hreach _, exists_stopsUntold_visit⟩

end World

end TileWorld
