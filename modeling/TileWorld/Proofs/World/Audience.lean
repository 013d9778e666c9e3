import TileWorld.Proofs.Renaming
import TileWorld.Proofs.World.Order
import TileWorld.Proofs.World.Representation

/-!
# Who hears

What is said, and the news that somebody has left, goes out at once and not in a tick. Whom it
reaches is looked up in the index of the map, which was last brought up to date in a tick. It is
exact nevertheless, at every moment (`World.audience_of_reaches`): who hears are precisely the
players on the map that are in range, in ascending order of identities, and nothing else goes out.

Identities may come round here, and whoever is added may have any identity, since this only rests on
the order of a world (`World.Orderly`).
-/

namespace TileWorld

namespace World

variable {config : WorldConfig} {atlas : Atlas} {w w' : World} {map : MapId} {id : EntityId}
  {e : Entity} {g : Region} {P : Entity → Prop} {ids : List EntityId}

/-! ### All that is done with a world -/

/-- What its owner does with a world. -/
inductive Operation where
  /-- Asks something of it. -/
  | ask (c : Command)
  /-- Takes the messages that wait. -/
  | takeDeliveries
  /-- Takes the list of lost players. -/
  | takeLost
  /-- Takes the calls for the scripts. -/
  | takeCalls

/-- The world after something was done with it. -/
def perform (w : World) : Operation → World
  | .ask c => w.execute c
  | .takeDeliveries => w.takeDeliveries.2
  | .takeLost => w.takeLost.2
  | .takeCalls => w.takeCalls.2

/-- Whoever is added is new. -/
def AdmitsNew (_ : World) : Operation → Prop
  | .ask (.add e) => e.IsNew
  | _ => True

/-- A world stays orderly when somebody is added, even if the map refuses the newcomer. -/
theorem Orderly.add (hw : w.Orderly) (hrest : e.AtRest) : (w.add e).2.Orderly := by
  obtain ⟨err, h⟩ | ⟨-, g, w₁, hact, hadd⟩ := w.add_cases e
  · rwa [h]
  · have hw₁ : w₁.Orderly := hw.develops (develops_activate (t := {}) hact)
    obtain ⟨err, h⟩ | ⟨x, g', hcomes, h⟩ := hadd
    · rwa [h]
    · rw [h]
      exact hw₁.welcome hcomes hrest

theorem Orderly.perform (hw : w.Orderly) {o : Operation} (ho : w.AdmitsNew o) :
    (w.perform o).Orderly := by
  have hallowed {c : Command} (hc : w.Allows c) : (w.execute c).Orderly :=
    hw.develops hc.develops
  cases o with
  | ask c =>
    rw [World.perform]
    cases c with
    | add e => exact hw.add (Entity.IsNew.atRest ho)
    | _ => exact hallowed trivial
  | takeDeliveries | takeLost | takeCalls => exact hw.congr rfl rfl

/-- Every world of a run is orderly, even when identities have come round. -/
theorem orderly_of_performed (h : Reaches perform AdmitsNew (empty config atlas) w) : w.Orderly :=
  h.invariant (orderly_empty config atlas) fun _ _ hv ho => hv.perform ho

/-! ### Audiences -/

/-- The players of a map of whom something is true, in ascending order of identities. -/
structure IsAudience (w : World) (map : MapId) (P : Entity → Prop) (ids : List EntityId) : Prop where
  ascending : ids.Pairwise fun k k' => k.val < k'.val
  mem_iff : ∀ k, k ∈ ids ↔ ∃ p, w.Finds map k p ∧ p.isPlayer = true ∧ P p

/-- There is one such list only. -/
theorem IsAudience.eq {ids' : List EntityId} (h : w.IsAudience map P ids)
    (h' : w.IsAudience map P ids') : ids = ids' := by
  have hnodup {l : List EntityId} (hl : l.Pairwise fun k k' => k.val < k'.val) : l.Nodup :=
    hl.imp fun {k k'} hlt => by
      rintro rfl
      exact UInt32.lt_irrefl _ hlt
  refine List.Perm.eq_of_pairwise (fun k k' _ _ hlt hlt' => absurd hlt' (UInt32.lt_asymm hlt))
    h.ascending h'.ascending ?_
  refine (List.perm_ext_iff_of_nodup (hnodup h.ascending) (hnodup h'.ascending)).mpr fun k => ?_
  rw [h.mem_iff, h'.mem_iff]

/-- Looking at everybody on a map yields an audience. -/
theorem isAudience_filter (hg : w.region? map = some g) (hplaced : g.Placed) {q : Entity → Bool}
    (hq : ∀ p, q p = true ↔ p.isPlayer = true ∧ P p) :
    w.IsAudience map P ((g.entities.filter q).map Entity.id) where
  ascending := by
    refine List.pairwise_map.mpr ((hplaced.pairwise_entities.filter q).imp fun {p p'} hlt => ?_)
    exact UInt32.lt_iff_toNat_lt.mpr (EntityId.compare_eq_lt_iff.mp hlt)
  mem_iff k := by
    simp only [List.mem_map, List.mem_filter, hq, finds_iff hg]
    constructor
    · rintro ⟨p, ⟨hp, hplayer⟩, rfl⟩
      exact ⟨p, hplaced.find?_of_mem hp, hplayer⟩
    · rintro ⟨p, hp, hplayer⟩
      exact ⟨p, ⟨Region.mem_entities_of_find? hp, hplayer⟩, hplaced.id_eq hp⟩

/-- What is sent to an audience is sent to nobody else, and everybody is counted. -/
theorem broadcast_eq_iff {l : List Entity} (hl : w.IsAudience map P (l.map Entity.id)) {m : Message}
    {n : Nat} : w.broadcast l m = (n, w') ↔
      ∃ ids, w.IsAudience map P ids ∧ n = ids.length ∧ w' = w.post (Delivery.toAll ids m) := by
  rw [broadcast, Prod.mk.injEq]
  constructor
  · rintro ⟨rfl, rfl⟩
    exact ⟨_, hl, by rw [List.length_map], rfl⟩
  · rintro ⟨ids, hids, rfl, rfl⟩
    rw [← hl.eq hids, List.length_map]
    exact ⟨rfl, rfl⟩

/-! ### Whom it reaches -/

/-- The players that a search around an entity finds are those within range on its map. -/
theorem Orderly.isAudience_playersAround (hw : w.Orderly) (hg : w.region? map = some g)
    (e : Entity) (range : UInt16) :
    w.IsAudience map (fun p => p.position.inRange e.position range = true)
      ((g.playersAround e range).map Entity.id) := by
  obtain ⟨hplaced, hindexed, -⟩ := hw.region hg
  rw [hindexed.playersAround_eq hplaced.within]
  exact isAudience_filter hg hplaced fun p => Bool.and_eq_true_iff

/-- The players among the beings that a search around a point finds are those within range of it. -/
theorem Orderly.isAudience_beingsAround (hw : w.Orderly) (hg : w.region? map = some g)
    (center : Point) (range : UInt16) :
    w.IsAudience map (fun p => p.position.inRange center range = true)
      (((g.beingsAround center range).filter Entity.isPlayer).map Entity.id) := by
  obtain ⟨hplaced, hindexed, -⟩ := hw.region hg
  rw [hindexed.beingsAround_eq hplaced.within, List.filter_filter]
  refine isAudience_filter hg hplaced fun p => ?_
  simp only [Bool.and_eq_true]
  exact ⟨fun h => ⟨h.1, h.2.2⟩, fun h => ⟨h.1, Entity.isBeing_of_isPlayer h.1, h.2⟩⟩

/-- Who hears a speaker, and when a speaker is heard. -/
theorem Orderly.says_iff (hw : w.Orderly) {text : String} {n : Nat} :
    w.say id text = .ok (n, w') ↔ ∃ map e x ids, w.mapOf id = some map ∧ w.Finds map id e ∧
      e.publicId = some x ∧ Field.Fits text ∧
      w.IsAudience map (fun p => p.position.inRange e.position w.config.range = true) ids ∧
      n = ids.length ∧ w' = w.post (Delivery.toAll ids
        ⟨Opcode.chat, Field.ofShort x.val ++ Field.textBytes text⟩) := by
  rw [say_eq_ok_iff]
  constructor
  · rintro ⟨map, g, e, m, hmap, hg, he, hm, hsaid⟩
    obtain ⟨x, hx, -⟩ := (hw.region hg).numbered.taken he
    obtain ⟨hfits, rfl⟩ := chatNotice_eq_ok_iff.mp hm
    obtain ⟨ids, hids, hn, hw'⟩ := (broadcast_eq_iff (hw.isAudience_playersAround hg e _)).mp hsaid
    rw [hx] at hw'
    exact ⟨map, e, x, ids, hmap, ⟨g, hg, he⟩, hx, hfits, hids, hn, hw'⟩
  · rintro ⟨map, e, x, ids, hmap, ⟨g, hg, he⟩, hx, hfits, hids, hn, hw'⟩
    refine ⟨map, g, e, _, hmap, hg, he, chatNotice_eq_ok_iff.mpr ⟨hfits, rfl⟩, ?_⟩
    rw [hx]
    exact (broadcast_eq_iff (hw.isAudience_playersAround hg e _)).mpr ⟨ids, hids, hn, hw'⟩

/-- An announcement is made if the map is in use and the text can be written. -/
theorem announce_eq_ok_iff {center : Point} {text : String} {n : Nat} :
    w.announce map center text = .ok (n, w') ↔ ∃ g m, w.region? map = some g ∧
      chatNotice none text = .ok m ∧
        w.broadcast ((g.beingsAround center w.config.range).filter Entity.isPlayer) m = (n, w') := by
  rw [announce]
  rcases hg : w.region? map with _ | g
  · simp
  · rcases chatNotice none text with err | m <;> simp

/-- Who hears a voice without a speaker, and when it is heard. -/
theorem Orderly.announces_iff (hw : w.Orderly) {center : Point} {text : String} {n : Nat} :
    w.announce map center text = .ok (n, w') ↔ ∃ ids, (w.region? map).isSome = true ∧
      Field.Fits text ∧
      w.IsAudience map (fun p => p.position.inRange center w.config.range = true) ids ∧
      n = ids.length ∧ w' = w.post (Delivery.toAll ids
        ⟨Opcode.chat, Field.ofShort 0xFFFF ++ Field.textBytes text⟩) := by
  rw [announce_eq_ok_iff]
  constructor
  · rintro ⟨g, m, hg, hm, hsaid⟩
    obtain ⟨hfits, rfl⟩ := chatNotice_eq_ok_iff.mp hm
    obtain ⟨ids, hids, hn, hw'⟩ :=
      (broadcast_eq_iff (hw.isAudience_beingsAround hg center _)).mp hsaid
    exact ⟨ids, Option.isSome_of_eq_some hg, hfits, hids, hn, hw'⟩
  · rintro ⟨ids, hmap, hfits, hids, hn, hw'⟩
    obtain ⟨g, hg⟩ := Option.isSome_iff_exists.mp hmap
    exact ⟨g, _, hg, chatNotice_eq_ok_iff.mpr ⟨hfits, rfl⟩,
      (broadcast_eq_iff (hw.isAudience_beingsAround hg center _)).mpr ⟨ids, hids, hn, hw'⟩⟩

/-- Who takes leave of an entity: all other players in range, unless it is an item. -/
theorem Orderly.farewells_eq_toAll (hw : w.Orderly) (hg : w.region? map = some g)
    (he : g.find? id = some e) :
    ∃ x ids, e.publicId = some x ∧
      w.IsAudience map (fun p => e.isBeing = true ∧ p.id ≠ id ∧
        p.position.inRange e.position w.config.range = true) ids ∧
      w.farewells g e = Delivery.toAll ids ⟨Opcode.beingLeave, Field.ofShort x.val⟩ := by
  obtain ⟨hplaced, hindexed, hnumbered⟩ := hw.region hg
  obtain ⟨x, hx, -⟩ := hnumbered.taken he
  rcases hbeing : e.isBeing
  · refine ⟨x, [], hx, ⟨.nil, fun k => by simp⟩, by simp [farewells, hbeing, Delivery.toAll]⟩
  · refine ⟨x, _, hx, ?_, by rw [farewells, hbeing, hx]; rfl⟩
    rw [hindexed.playersAround_eq hplaced.within, List.filter_filter]
    refine isAudience_filter hg hplaced fun p => ?_
    rw [hplaced.id_eq he]
    simp only [Bool.and_eq_true, decide_eq_true_eq]
    tauto

/-- An entity that is on some map can be removed. -/
theorem Housed.remove_eq_none_iff (hw : w.Housed) {cause : RemovalCause} :
    w.remove id cause = none ↔ w.mapOf id = none := by
  constructor
  · intro hnone
    by_contra hne
    obtain ⟨e, w', hrem⟩ := hw.exists_remove (contains_locations.mpr hne) cause
    rw [hnone] at hrem
    cases hrem
  · intro hnone
    rw [World.remove, hnone]
    rfl

/-- Who is told that an entity has left. -/
theorem Orderly.removes (hw : w.Orderly) {cause : RemovalCause}
    (h : w.remove id cause = some (e, w')) : ∃ map q x ids, w.mapOf id = some map ∧
      w.Finds map id q ∧ e = { q with publicId := none } ∧ q.publicId = some x ∧
      w.IsAudience map (fun p => q.isBeing = true ∧ p.id ≠ id ∧
        p.position.inRange q.position w.config.range = true) ids ∧
      w'.outbox = w.outbox ++ Delivery.toAll ids ⟨Opcode.beingLeave, Field.ofShort x.val⟩ := by
  obtain ⟨map, g, q, g', hmap, hg, hq, hrem, rfl⟩ := remove_eq_some_iff.mp h
  obtain ⟨q', hq', he, -⟩ := Region.remove_eq_some_iff.mp hrem
  obtain rfl : q' = q := Option.some.inj (hq'.symm.trans hq)
  obtain ⟨x, ids, hx, hids, hfarewells⟩ := hw.farewells_eq_toAll hg hq
  exact ⟨map, q', x, ids, hmap, ⟨g, hg, hq⟩, he, hx, hids, by rw [← hfarewells]⟩

/-! ### Every moment -/

/-- Whatever has been done with a world, and whether or not a tick has passed since: an entity that
speaks is heard by precisely the players on its map that are in range, itself included if it is one;
a voice without a speaker by precisely the players on the map that are in range of a point, which
may lie anywhere; and that a being has left is told to precisely the other players in range, while
that an item has left is told to nobody. Each time the recipients come in ascending order, nothing
else is queued, and whoever speaks is told how many they were. -/
theorem audience_of_reaches (h : Reaches perform AdmitsNew (empty config atlas) w) :
    (∀ id text n w', w.say id text = .ok (n, w') ↔
      ∃ map e x ids, w.mapOf id = some map ∧ w.Finds map id e ∧ e.publicId = some x ∧
        Field.Fits text ∧
        w.IsAudience map (fun p => p.position.inRange e.position w.config.range = true) ids ∧
        n = ids.length ∧ w' = w.post (Delivery.toAll ids
          ⟨Opcode.chat, Field.ofShort x.val ++ Field.textBytes text⟩)) ∧
    (∀ map center text n w', w.announce map center text = .ok (n, w') ↔
      ∃ ids, (w.region? map).isSome = true ∧ Field.Fits text ∧
        w.IsAudience map (fun p => p.position.inRange center w.config.range = true) ids ∧
        n = ids.length ∧ w' = w.post (Delivery.toAll ids
          ⟨Opcode.chat, Field.ofShort 0xFFFF ++ Field.textBytes text⟩)) ∧
    ∀ id cause, (w.remove id cause = none ↔ w.mapOf id = none) ∧
      ∀ e w', w.remove id cause = some (e, w') →
        ∃ map q x ids, w.mapOf id = some map ∧ w.Finds map id q ∧
          e = { q with publicId := none } ∧ q.publicId = some x ∧
          w.IsAudience map (fun p => q.isBeing = true ∧ p.id ≠ id ∧
            p.position.inRange q.position w.config.range = true) ids ∧
          w'.outbox = w.outbox ++
            Delivery.toAll ids ⟨Opcode.beingLeave, Field.ofShort x.val⟩ := by
  have hw := orderly_of_performed h
  exact ⟨fun id text n w' => hw.says_iff, fun map center text n w' => hw.announces_iff,
    fun id cause => ⟨hw.toHoused.remove_eq_none_iff, fun e w' => hw.removes⟩⟩

/-! ### An example -/

/-- Two characters and an item have come since the last tick, one of the characters has gone to
another place, and the messages that had to wait until then have been taken. -/
def gathering : World :=
  [.ask (.enter "Ann"), .ask .tick, .ask (.enter "Ben"),
    .ask (.add (.item (.nth 7) 5 ⟨1⟩ ⟨1500, 1500⟩)), .ask (.enter "Eve"),
    .ask (.warp (.nth 3) ⟨1⟩ ⟨3800, 100⟩), .takeDeliveries].foldl perform (empty {} hamlet)

theorem reaches_gathering : Reaches perform AdmitsNew (empty {} hamlet) gathering :=
  Reaches.foldl _ _ (by simp [AdmitsNew, Entity.IsNew.item])

/-- Two players hear Ann, who is one of them, and one player hears what is announced where it is. Of the
item that is removed nobody is told. -/
theorem audience_at_gathering :
    (∃ w' e ids, gathering.say (.nth 1) "Hello" = .ok (2, w') ∧ gathering.Finds ⟨1⟩ (.nth 1) e ∧
      gathering.IsAudience ⟨1⟩ (fun p => p.position.inRange e.position gathering.config.range = true)
        ids ∧ ids.length = 2) ∧
    (∃ w' ids, gathering.announce ⟨1⟩ ⟨4000, 100⟩ "Hello" = .ok (1, w') ∧
      gathering.IsAudience ⟨1⟩ (fun p => p.position.inRange ⟨4000, 100⟩ gathering.config.range = true)
        ids ∧ ids.length = 1) ∧
    ∃ e w' q x ids, gathering.remove (.nth 7) .disconnect = some (e, w') ∧
      gathering.Finds ⟨1⟩ (.nth 7) q ∧
      gathering.IsAudience ⟨1⟩ (fun p => q.isBeing = true ∧ p.id ≠ .nth 7 ∧
        p.position.inRange q.position gathering.config.range = true) ids ∧
      w'.outbox = gathering.outbox ++
        Delivery.toAll ids ⟨Opcode.beingLeave, Field.ofShort x⟩ := by
  obtain ⟨hsay, hannounce, hremove⟩ := audience_of_reaches reaches_gathering
  have hmap : gathering.mapOf (.nth 1) = some ⟨1⟩ := by cbv
  have hmap' : gathering.mapOf (.nth 7) = some ⟨1⟩ := by cbv
  refine ⟨?_, ?_, ?_⟩
  · have hcount : (gathering.say (.nth 1) "Hello").toOption.map Prod.fst = some 2 := by cbv
    rcases h : gathering.say (.nth 1) "Hello" with err | ⟨n, w'⟩
    · simp [h, Except.toOption] at hcount
    obtain rfl : n = 2 := by simpa [h, Except.toOption] using hcount
    obtain ⟨map, e, x, ids, hspeaker, he, -, -, hids, hn, -⟩ := (hsay ..).mp h
    obtain rfl : map = ⟨1⟩ := Option.some.inj (hspeaker.symm.trans hmap)
    exact ⟨w', e, ids, rfl, he, hids, hn.symm⟩
  · have hcount : (gathering.announce ⟨1⟩ ⟨4000, 100⟩ "Hello").toOption.map Prod.fst = some 1 := by
      cbv
    rcases h : gathering.announce ⟨1⟩ ⟨4000, 100⟩ "Hello" with err | ⟨n, w'⟩
    · simp [h, Except.toOption] at hcount
    obtain rfl : n = 1 := by simpa [h, Except.toOption] using hcount
    obtain ⟨ids, -, -, hids, hn, -⟩ := (hannounce ..).mp h
    exact ⟨w', ids, rfl, hids, hn.symm⟩
  · rcases h : gathering.remove (.nth 7) .disconnect with _ | ⟨e, w'⟩
    · rw [(hremove _ _).1.mp h] at hmap'
      cases hmap'
    · obtain ⟨map, q, x, ids, hitem, hq, -, -, hids, hout⟩ := (hremove _ _).2 e w' h
      obtain rfl : map = ⟨1⟩ := Option.some.inj (hitem.symm.trans hmap')
      exact ⟨e, w', q, x.val, ids, rfl, hq, hids, hout⟩

end World

end TileWorld
