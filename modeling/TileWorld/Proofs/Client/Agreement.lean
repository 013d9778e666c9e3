import TileWorld.Proofs.Client.Hearing
import TileWorld.Proofs.Region.Soundness

/-!
# When a client has the right view

What a client has in view agrees with what there is on its map if it has just the beings in view
that its character sees, and knows where they are and where they walk (`Scene.Agrees`). What its
character sees and what it has been told is different between two turns of a map, in the middle of
a turn and at the end of it; these are three outlooks on the same map.

An agreement outlives the passes of a turn, beings that come and beings that leave. The main
statement is `Scene.Agrees.hear`: the news of a tick leads from the outlook in the middle of a turn
to the one at its end.
-/

namespace TileWorld

/-- The entity is on its way and gets on. -/
def Entity.IsWalking (e : Entity) : Prop := e.position ≠ e.destination ∧ e.speed ≠ 0

/-! ### Outlooks -/

/-- How a viewer stands to what is on its map. -/
structure Outlook where
  /-- The beings that it sees. -/
  sees : Entity → Prop
  /-- Where it takes them to be. -/
  place : Entity → Point
  /-- Those of which it has been told where they walk. -/
  told : Entity → Prop

namespace Outlook

/-- The outlook between two turns of a map. -/
def between (viewer : Entity) (range : UInt16) : Outlook where
  sees e := viewer.changes.newOnMap = false ∧ e.changes.newOnMap = false ∧
    e.position.inRange viewer.position range = true
  place e := e.position
  told e := e.IsWalking ∧ e.changes.newDestination = false

/-- The outlook in the middle of a turn, when everybody has moved and no player has been told. -/
def before (viewer : Entity) (range : UInt16) : Outlook where
  sees e := e.wasSeenBy viewer range = true
  place e := e.oldPosition
  told e := e.IsWalking ∧ e.changes.newDestination = false

/-- The outlook at the end of a turn, when the players have been told. -/
def after (viewer : Entity) (range : UInt16) : Outlook where
  sees e := e.isSeenBy viewer range = true
  place e := e.position
  told e := e.IsWalking

/-- What is known of a being is right. -/
def Knows (v : Outlook) (b : Sighting) (e : Entity) : Prop :=
  (∃ m, b.lastMove = some m ∧ m.place = some (v.place e).tile) ∧
    (v.told e → b.destination = some e.destination)

/-- Whoever is new on the map is not seen. -/
theorem not_sees_between {viewer e : Entity} {range : UInt16}
    (h : viewer.changes.newOnMap = true ∨ e.changes.newOnMap = true) :
    ¬ (between viewer range).sees e := by
  rintro ⟨hviewer, he, -⟩
  rcases h with h | h
  · exact absurd (hviewer.symm.trans h) (by decide)
  · exact absurd (he.symm.trans h) (by decide)

theorem sees_before_iff {viewer e : Entity} {range : UInt16} :
    (before viewer range).sees e ↔ viewer.changes.newOnMap = false ∧ e.changes.newOnMap = false ∧
      e.oldPosition.inRange viewer.oldPosition range = true := by
  show e.wasSeenBy viewer range = true ↔ _
  simp only [Entity.wasSeenBy, Union.union, Changes.union, Bool.and_eq_true, Bool.not_eq_true',
    Bool.or_eq_false_iff, and_assoc]

end Outlook

namespace Scene

open Outlook

/-- What a client has in view is what there is to be seen. -/
structure Agrees (s : Scene) (g : Region) (v : Outlook) : Prop where
  shown : ∀ {k e x}, g.find? k = some e → e.isBeing = true → e.publicId = some x → v.sees e →
    ∃ b, s.beings[x]? = some b ∧ v.Knows b e
  hidden : ∀ {x b}, s.beings[x]? = some b →
    ∃ k e, g.find? k = some e ∧ e.isBeing = true ∧ e.publicId = some x ∧ v.sees e

variable {s : Scene} {g g' : Region} {v v' : Outlook}

/-- The empty view is right for a viewer that sees nobody. -/
theorem agrees_empty (h : ∀ e, ¬ v.sees e) : ({} : Scene).Agrees g v where
  shown _ _ _ hsees := absurd hsees (h _)
  hidden h := by simp at h

/-- The view stays right if what was seen and known is seen and known in the same way. -/
theorem Agrees.rewrite (hs : s.Agrees g v) {R : Entity → Entity → Prop}
    (h : Region.Rewrites R g g')
    (hR : ∀ e e', R e e' → e'.publicId = e.publicId ∧ e'.isBeing = e.isBeing ∧
      (v'.sees e' ↔ v.sees e) ∧ v'.place e' = v.place e ∧
        (v'.told e' → v.told e ∧ e'.destination = e.destination)) : s.Agrees g' v' where
  shown {k e' x} hk hbeing hx hsees := by
    obtain ⟨e, he, hRe⟩ := h.back hk
    obtain ⟨hid, hb, hsee, hplace, htold⟩ := hR e e' hRe
    obtain ⟨b, hb', hmove, hdest⟩ :=
      hs.shown he (by rwa [← hb]) (by rwa [← hid]) (hsee.mp hsees)
    refine ⟨b, hb', by rwa [hplace], ?_⟩
    intro ht
    rw [(htold ht).2]
    exact hdest (htold ht).1
  hidden {x b} hb := by
    obtain ⟨k, e, he, hbeing, hx, hsees⟩ := hs.hidden hb
    obtain ⟨e', he', hRe⟩ := h.forth he
    obtain ⟨hid, hbe, hsee, -⟩ := hR e e' hRe
    exact ⟨k, e', he', by rwa [hbe], by rwa [hid], hsee.mpr hsees⟩

/-- The view stays right if somebody comes who is not seen. -/
theorem Agrees.insert (hs : s.Agrees g v) {id : EntityId} {e : Entity} (hfree : g.find? id = none)
    (hfind : ∀ k, g'.find? k = if k = id then some e else g.find? k) (hunseen : ¬ v.sees e) :
    s.Agrees g' v where
  shown {k o x} hk hbeing hx hsees := by
    rw [hfind] at hk
    split at hk
    · cases hk
      exact absurd hsees hunseen
    · exact hs.shown hk hbeing hx hsees
  hidden {x b} hb := by
    obtain ⟨k, o, ho, hrest⟩ := hs.hidden hb
    refine ⟨k, o, ?_, hrest⟩
    rw [hfind, if_neg, ho]
    rintro rfl
    exact absurd (hfree.symm.trans ho) (by simp)

/-- The view stays right if somebody leaves who is not seen. -/
theorem Agrees.remove (hs : s.Agrees g v) {id : EntityId} {e : Entity} (he : g.find? id = some e)
    (hfind : ∀ k, g'.find? k = if k = id then none else g.find? k)
    (hunseen : e.isBeing = true → ¬ v.sees e) : s.Agrees g' v where
  shown {k o x} hk hbeing hx hsees := by
    rw [hfind] at hk
    split at hk
    · cases hk
    · exact hs.shown hk hbeing hx hsees
  hidden {x b} hb := by
    obtain ⟨k, o, ho, hbeing, hx, hsees⟩ := hs.hidden hb
    refine ⟨k, o, ?_, hbeing, hx, hsees⟩
    rw [hfind, if_neg, ho]
    rintro rfl
    obtain rfl : e = o := Option.some.inj (he.symm.trans ho)
    exact hunseen hbeing hsees

/-- The view stays right if somebody leaves and is taken leave of, seen or not. -/
theorem Agrees.leave (hs : s.Agrees g v) (hg : g.Numbered) {id : EntityId} {e : Entity}
    (he : g.find? id = some e) {x : PublicId} (hx : e.publicId = some x)
    (hfind : ∀ k, g'.find? k = if k = id then none else g.find? k) :
    (s.update (.leave x)).Agrees g' v := by
  have hbeings (y : PublicId) :
      (s.update (.leave x)).beings[y]? = if y = x then none else s.beings[y]? :=
    Table.getElem?_erase ..
  refine ⟨fun {k o y} hk hbeing hy hsees => ?_, fun {y b} hb => ?_⟩
  · rw [hfind] at hk
    split at hk
    · cases hk
    · rename_i hne
      obtain ⟨b, hb⟩ := hs.shown hk hbeing hy hsees
      refine ⟨b, ?_, hb.2⟩
      rw [hbeings, if_neg, hb.1]
      rintro rfl
      exact hne (hg.distinct hk he (hy.trans hx.symm))
  · rw [hbeings] at hb
    split at hb
    · cases hb
    · rename_i hne
      obtain ⟨k, o, ho, hrest⟩ := hs.hidden hb
      refine ⟨k, o, ?_, hrest⟩
      rw [hfind, if_neg, ho]
      rintro rfl
      obtain rfl : e = o := Option.some.inj (he.symm.trans ho)
      exact hne (Option.some.inj (hrest.2.1.symm.trans hx))

/-! ### The outlooks in their order -/

variable {viewer : Entity} {range : UInt16}

/-- What could be seen between two turns is what could be seen before the next one's passes. -/
theorem Agrees.advance (hs : s.Agrees g (between viewer range)) (r : RandomStream) :
    s.Agrees g.advance (before (viewer.live g.terrain r) range) := by
  refine hs.rewrite (Region.rewrites_advance g) ?_
  rintro e e' ⟨r', rfl⟩
  have hp := e.persists_live g.terrain r'
  refine ⟨hp.publicId, hp.isBeing, ?_, Entity.oldPosition_live, ?_⟩
  · rw [sees_before_iff]
    simp only [Entity.newOnMap_live, Entity.oldPosition_live]
    rfl
  · rintro ⟨⟨hwalk, hspeed⟩, hnews⟩
    obtain ⟨hwalk', hnews', hdest⟩ := Entity.walking_of_walking_live hwalk hnews
    rw [hp.speed] at hspeed
    exact ⟨⟨⟨hwalk', hspeed⟩, hnews'⟩, hdest⟩

/-- When everything that happened is forgotten, a turn is over. -/
theorem Agrees.clearChanges (hs : s.Agrees g (after viewer range)) :
    s.Agrees g.clearChanges (between viewer.clearChanges range) := by
  refine hs.rewrite (Region.rewrites_clearChanges g) ?_
  rintro e e' rfl
  refine ⟨rfl, rfl, ?_, rfl, fun h => ⟨h.1, rfl⟩⟩
  show false = false ∧ false = false ∧ e.position.inRange viewer.position range = true ↔ _
  simp only [true_and]
  rfl

/-- Walking and attacking change nothing about what is seen. -/
theorem Agrees.act (hs : s.Agrees g (between viewer range)) (id : EntityId) {f : Entity → Entity}
    {viewer' : Entity} (hviewer : viewer' = viewer ∨ viewer' = f viewer)
    (hf : ∀ e : Entity, e.Stays (f e) ∧ (f e).changes.newOnMap = e.changes.newOnMap ∧
      ((f e).changes.newDestination = false →
        e.changes.newDestination = false ∧ (f e).destination = e.destination)) :
    s.Agrees (g.modify id f) (between viewer' range) := by
  have hsame : viewer'.changes.newOnMap = viewer.changes.newOnMap ∧
      viewer'.position = viewer.position := by
    rcases hviewer with rfl | rfl
    · exact ⟨rfl, rfl⟩
    · exact ⟨(hf viewer).2.1, (hf viewer).1.position⟩
  refine hs.rewrite (Region.rewrites_modify g id f) ?_
  rintro e e' (rfl | rfl)
  · refine ⟨rfl, rfl, ?_, rfl, fun h => ⟨h, rfl⟩⟩
    simp only [between, hsame.1, hsame.2]
  · obtain ⟨hstays, hnew, hdest⟩ := hf e
    refine ⟨hstays.publicId, hstays.isBeing, ?_, hstays.position, ?_⟩
    · simp only [between, hsame.1, hsame.2, hnew, hstays.position]
    · rintro ⟨⟨hwalk, hspeed⟩, hnews⟩
      obtain ⟨hnews', heq⟩ := hdest hnews
      rw [hstays.position, heq] at hwalk
      rw [hstays.speed] at hspeed
      exact ⟨⟨⟨hwalk, hspeed⟩, hnews'⟩, heq⟩

/-! ### The news of a tick -/

/-- The entry about a being in view says where it is. -/
theorem place_moveEntry (e : Entity) (x : PublicId) (known : Bool) :
    (e.moveEntry x known).place = some e.position.tile := by
  rw [Entity.moveEntry]
  split
  · rename_i h
    rw [h]
    rfl
  · rfl

/-- Somebody who comes into view is told of with everything there is to know. -/
theorem knows_heed_new (e : Entity) (x : PublicId) (b : Sighting) :
    (after viewer range).Knows (b.heed (e.moveEntry x false)) e := by
  refine ⟨⟨_, rfl, place_moveEntry e x false⟩, ?_⟩
  intro _
  show (e.moveEntry x false).destination.or b.destination = some e.destination
  rw [Entity.moveEntry]
  split <;> rfl

/-- Somebody who stays in view and moves is told of with its place, and with its destination if that
is news. -/
theorem knows_heed_known {e : Entity} {b : Sighting} (x : PublicId)
    (hb : (before viewer range).Knows b e) :
    (after viewer range).Knows (b.heed (e.moveEntry x true)) e := by
  refine ⟨⟨_, rfl, place_moveEntry e x true⟩, ?_⟩
  intro hwalk
  show (e.moveEntry x true).destination.or b.destination = some e.destination
  rw [Entity.moveEntry, if_neg hwalk.1]
  rcases hnews : e.changes.newDestination
  · exact hb.2 ⟨hwalk, hnews⟩
  · rfl

/-- Somebody who stays in view and does not move is not told of; it was known where it is, and it
walks to nowhere. -/
theorem knows_of_unmoved {e : Entity} {b : Sighting} (hb : (before viewer range).Knows b e)
    (hmoved : e.IsWalking → e.oldPosition ≠ e.position) (hsame : e.oldPosition = e.position) :
    (after viewer range).Knows b e := by
  obtain ⟨⟨m, hm, hplace⟩, -⟩ := hb
  refine ⟨⟨m, hm, ?_⟩, fun hwalk => absurd hsame (hmoved hwalk)⟩
  rw [hplace]
  exact congrArg (fun p => some p.tile) hsame

/-- A being that was in view concerns the viewer. -/
theorem concerns_of_wasSeenBy {e : Entity} (hbeing : e.isBeing = true)
    (h : e.wasSeenBy viewer range = true) : Region.concerns e viewer range = true := by
  simp only [Entity.wasSeenBy, Bool.and_eq_true] at h
  simp [Region.concerns, hbeing, h.2]

/-- A being that is in view concerns the viewer. -/
theorem concerns_of_isSeenBy {e : Entity} (hbeing : e.isBeing = true)
    (h : e.isSeenBy viewer range = true) : Region.concerns e viewer range = true := by
  rw [Entity.isSeenBy] at h
  simp [Region.concerns, hbeing, h]

section

variable (hs : s.Agrees g (before viewer range)) (hg : g.Sound)
  (hnames : ∀ {k e}, g.find? k = some e → e.kind.NameFits)

include hs hg hnames

/-- What a client knows of a being in sight is right when the news has been heard. -/
theorem Agrees.shown_hear {k : EntityId} {e : Entity} {x : PublicId} (hk : g.find? k = some e)
    (hbeing : e.isBeing = true) (hx : e.publicId = some x) (hsees : (after viewer range).sees e)
    (hmoved : e.IsWalking → e.oldPosition ≠ e.position) :
    ∃ b, (s.hear viewer range (g.beingsConcerning viewer range)).beings[x]? = some b ∧
      (after viewer range).Knows b e := by
  have hmem : e ∈ g.beingsConcerning viewer range :=
    (hg.indexed.mem_beingsConcerning_iff hg.placed).mpr
      ⟨Region.mem_entities_of_find? hk, concerns_of_isSeenBy hbeing hsees⟩
  have hfits : ∀ e ∈ g.beingsConcerning viewer range, e.kind.NameFits := fun e he =>
    hnames (hg.find?_of_concerning he)
  have hlook := getElem?_hear_of_mem viewer range (fun e he => hg.exists_publicId_of_concerning he)
    hfits (hg.distinct_concerning viewer range) hmem hx s
  rw [Entity.entryFor, Entity.reappear, hsees] at hlook
  rcases hwas : e.wasSeenBy viewer range <;> simp only [hwas] at hlook
  · exact ⟨_, hlook, knows_heed_new e x {}⟩
  · obtain ⟨b, hb, hknows⟩ := hs.shown hk hbeing hx hwas
    rw [hb] at hlook
    by_cases hpos : e.oldPosition = e.position
    · rw [if_pos hpos] at hlook
      exact ⟨b, hlook, knows_of_unmoved hknows hmoved hpos⟩
    · rw [if_neg hpos] at hlook
      exact ⟨_, hlook, knows_heed_known x hknows⟩

/-- Whomever a client has in view when the news has been heard is in sight. -/
theorem Agrees.hidden_hear {x : PublicId} {b : Sighting}
    (hb : (s.hear viewer range (g.beingsConcerning viewer range)).beings[x]? = some b) :
    ∃ k e, g.find? k = some e ∧ e.isBeing = true ∧ e.publicId = some x ∧
      (after viewer range).sees e := by
  have hids : ∀ e ∈ g.beingsConcerning viewer range, ∃ x, e.publicId = some x := fun e he =>
    hg.exists_publicId_of_concerning he
  have hfits : ∀ e ∈ g.beingsConcerning viewer range, e.kind.NameFits := fun e he =>
    hnames (hg.find?_of_concerning he)
  by_cases hmem : ∃ e ∈ g.beingsConcerning viewer range, e.publicId = some x
  · obtain ⟨e, he, hx⟩ := hmem
    have hlook := getElem?_hear_of_mem viewer range hids hfits
      (hg.distinct_concerning viewer range) he hx s
    have hk := hg.find?_of_concerning he
    have hbeing := hg.isBeing_of_concerning he
    rw [hb, Entity.entryFor, Entity.reappear] at hlook
    rcases his : e.isSeenBy viewer range
    · -- whoever is out of sight now is not known any more
      rcases hwas : e.wasSeenBy viewer range <;> simp only [hwas, his] at hlook
      · obtain ⟨k, e', hk', -, hx', hsees⟩ := hs.hidden hlook.symm
        obtain rfl := hg.numbered.eq_of_publicId hk' hk (hx'.trans hx.symm)
        exact absurd (hwas.symm.trans hsees) (by decide)
      · cases hlook
    · exact ⟨e.id, e, hk, hbeing, hx, his⟩
  · -- no news was heard of this one, so it was in view before and would have been in the news
    rw [getElem?_hear_of_forall_ne viewer range hids hfits fun e he hx => hmem ⟨e, he, hx⟩] at hb
    obtain ⟨k, e, hk, hbeing, hx, hsees⟩ := hs.hidden hb
    refine absurd ⟨e, ?_, hx⟩ hmem
    exact (hg.indexed.mem_beingsConcerning_iff hg.placed).mpr
      ⟨Region.mem_entities_of_find? hk, concerns_of_wasSeenBy hbeing hsees⟩

/-- The news of a tick can be written, and whoever had the right view of the map when the tick began
has the right view of it when the news has been heard. -/
theorem Agrees.hear (hmoved : ∀ {k e}, g.find? k = some e → e.isBeing = true → e.IsWalking →
      e.oldPosition ≠ e.position) :
    ∃ ms, g.diff viewer range = .ok ms ∧ (ms.foldl receive s).Agrees g (after viewer range) := by
  refine ⟨_, Region.diff_eq_ok fun e he => hnames (hg.find?_of_concerning he), ?_⟩
  exact ⟨fun hk hbeing hx hsees => hs.shown_hear hg hnames hk hbeing hx hsees (hmoved hk hbeing),
    fun hb => hs.hidden_hear hg hnames hb⟩

end

end Scene

end TileWorld
