import TileWorld.Proofs.Session.Consistency
import TileWorld.Proofs.World.Players
import TileWorld.Proofs.World.Representation
import TileWorld.Server.Event

/-!
# Clients and their characters

The clients of a server control exactly the players that are on some map of its world
(`Server.crew_of_becomes`). In the midst of what a server does this is true but for players that the
world has just lost (`Server.Manned`), from whom their clients are taken before anything goes out.
-/

namespace TileWorld

open World

namespace Server

/-- Clients control the players of the world, but for those who are lost. -/
structure Manned (s : Server) : Prop where
  sound : s.world.Sound
  idle : s.world.deferred = []
  lost : ∀ id ∈ s.world.lost, s.world.Issued id
  consistent : s.sessions.Consistent
  crew : ∀ id, s.world.Plays id ↔ s.sessions.Controls id ∧ id ∉ s.world.lost

/-- A server comes to another one that has a consistent registry if it has one itself, and that is
manned if it is manned itself, as long as identities do not come round. -/
structure Leads (s s' : Server) : Prop where
  issued_le : s.world.issued ≤ s'.world.issued
  consistent : s.sessions.Consistent → s'.sessions.Consistent
  manned : s'.world.issued < UInt32.size → s.Manned → s'.Manned

variable {s s' s'' : Server}

theorem Leads.refl (s : Server) : s.Leads s := ⟨Nat.le_refl _, fun h => h, fun _ h => h⟩

theorem Leads.trans (h : s.Leads s') (h' : s'.Leads s'') : s.Leads s'' where
  issued_le := Nat.le_trans h.issued_le h'.issued_le
  consistent hs := h'.consistent (h.consistent hs)
  manned hlt hs := h'.manned hlt (h.manned (Nat.lt_of_le_of_lt h'.issued_le hlt) hs)

/-! ### Steps of a server -/

/-- Nobody is brought into the world or taken out of it. -/
theorem Manned.develops (hs : s.Manned) {w : World} (h : Develops .closed s.world w)
    (hidle : w.deferred = []) (hlt : w.issued < UInt32.size) : { s with world := w }.Manned := by
  obtain ⟨hsub, hplays⟩ := hs.sound.plays_develops
    (fun id hid hplay => ((hs.crew id).mp hplay).2 hid) h hlt
  refine ⟨hs.sound.develops h hlt, hidle, hs.sound.issued_of_lost_develops hs.lost h hlt,
    hs.consistent, ?_⟩
  intro id
  show w.Plays id ↔ s.sessions.Controls id ∧ id ∉ w.lost
  rw [hplays, hs.crew, and_assoc]
  exact and_congr_right fun _ => ⟨And.right, fun hid => ⟨fun hmem => hid (hsub hmem), hid⟩⟩

/-- What happens within a world in which nobody comes and nobody is taken away leaves its players
manned. -/
theorem leads_of_develops {w : World} (h : Develops .closed s.world w)
    (hdeferred : w.deferred = s.world.deferred) : s.Leads { s with world := w } :=
  ⟨h.issued_le, fun hs => hs, fun hlt hs => hs.develops h (hdeferred.trans hs.idle) hlt⟩

/-- The registry changes, but clients control the same characters as before. -/
theorem leads_of_controls_iff {r : Registry} (hr : s.sessions.Consistent → r.Consistent)
    (h : s.sessions.Consistent → ∀ id, r.Controls id ↔ s.sessions.Controls id) :
    s.Leads { s with sessions := r } := by
  refine ⟨Nat.le_refl _, hr, ?_⟩
  intro _ hs
  refine ⟨hs.sound, hs.idle, hs.lost, hr hs.consistent, ?_⟩
  intro id
  show s.world.Plays id ↔ r.Controls id ∧ _
  rw [h hs.consistent]
  exact hs.crew id

/-- Players that are lost are released, and all messages go out. -/
theorem leads_flush (s : Server) : s.Leads s.flush.2 := by
  refine ⟨Nat.le_refl _, fun hs => (hs.releaseAll s.world.lost).1, ?_⟩
  intro _ hs
  obtain ⟨hconsistent, hcontrols⟩ := hs.consistent.releaseAll s.world.lost
  refine ⟨hs.sound.congr rfl rfl (Nat.le_refl _), hs.idle, ?_, hconsistent, ?_⟩
  · exact fun id hid => absurd hid List.not_mem_nil
  · intro id
    refine (hs.crew id).trans ((hcontrols id).symm.trans ?_)
    exact ⟨fun h => ⟨h, List.not_mem_nil⟩, And.left⟩

theorem issued_dismiss (s : Server) (e : EntityId) :
    (s.dismiss e).world.issued = s.world.issued := by
  rw [dismiss]
  rcases hrem : s.world.remove e .disconnect with _ | ⟨gone, w⟩
  · rfl
  · exact (frame_remove hrem).issued

/-- What is left when a character that went away has left the world. -/
theorem dismiss_spec (hs : s.world.Sound) (e : EntityId) :
    (s.dismiss e).world.Sound ∧ (s.dismiss e).world.deferred = s.world.deferred ∧
      (s.dismiss e).world.lost = s.world.lost ∧
      ∀ id, (s.dismiss e).world.Plays id ↔ id ≠ e ∧ s.world.Plays id := by
  rw [dismiss]
  rcases hrem : s.world.remove e .disconnect with _ | ⟨gone, w⟩
  · refine ⟨hs, rfl, rfl, fun id => ⟨fun h => ⟨?_, h⟩, And.right⟩⟩
    rintro rfl
    exact hs.not_plays_of_remove_eq_none hrem h
  · have hframe := frame_remove hrem
    exact ⟨hs.remove hrem, hframe.deferred, hframe.lost, hs.plays_remove hrem⟩

/-- If the clients control all players but one that is to leave, it is enough that it leaves. -/
theorem manned_dismiss {e : EntityId} (hsound : s.world.Sound) (hidle : s.world.deferred = [])
    (hlost : ∀ id ∈ s.world.lost, s.world.Issued id) (hconsistent : s.sessions.Consistent)
    (hfree : ¬ s.sessions.Controls e)
    (hcrew : ∀ id, id ≠ e → (s.world.Plays id ↔ s.sessions.Controls id ∧ id ∉ s.world.lost)) :
    (s.dismiss e).Manned := by
  obtain ⟨hsound', hidle', hlost', hplays⟩ := dismiss_spec hsound e
  refine ⟨hsound', hidle'.trans hidle, ?_, hconsistent, ?_⟩
  · rw [hlost']
    exact fun id hid => (hlost id hid).of_le (Nat.le_of_eq (issued_dismiss s e).symm)
  · intro id
    rw [hplays, hlost']
    show _ ↔ s.sessions.Controls id ∧ _
    by_cases hid : id = e
    · rw [hid]
      exact iff_of_false (fun h => h.1 rfl) fun h => hfree h.1
    · rw [← hcrew id hid]
      exact ⟨And.right, fun h => ⟨hid, h⟩⟩

/-- A client is parted from its character, and the character leaves the world. -/
theorem leads_dismiss {r : Registry} {c : ConnectionId} {e : EntityId}
    (hr : s.sessions.Drops r c) (he : s.sessions.entityOf c = some e) :
    s.Leads ({ s with sessions := r }.dismiss e) := by
  refine ⟨Nat.le_of_eq (issued_dismiss _ e).symm, fun hs => hs.drops hr, ?_⟩
  intro _ hs
  have hcontrols (id : EntityId) : r.Controls id ↔ s.sessions.Controls id ∧ id ≠ e := by
    rw [hs.consistent.controls_drops hr, he]
    simp only [ne_eq, Option.some.injEq, eq_comm]
  refine manned_dismiss hs.sound hs.idle hs.lost (hs.consistent.drops hr) ?_ ?_
  · show ¬ r.Controls e
    rw [hcontrols]
    exact fun h => h.2 rfl
  · intro id hid
    show s.world.Plays id ↔ r.Controls id ∧ _
    rw [hcontrols, hs.crew]
    exact ⟨fun h => ⟨⟨h.1, hid⟩, h.2⟩, fun h => ⟨h.1.1, h.2⟩⟩

/-- A client that has no character gives it up. -/
theorem leads_drops {r : Registry} {c : ConnectionId} (hr : s.sessions.Drops r c)
    (hnone : s.sessions.entityOf c = none) : s.Leads { s with sessions := r } := by
  refine leads_of_controls_iff (fun hs => hs.drops hr) ?_
  intro hs id
  rw [hs.controls_drops hr, hnone]
  simp only [ne_eq, reduceCtorEq, not_false_eq_true, and_true]

/-! ### A character for a client -/

section Welcome

variable {c : ConnectionId} {e : Entity} {x : PublicId} {g g' : Region} {r : Registry}

/-- Somebody who has just come plays, and nobody else has come to play. -/
theorem Manned.plays_welcome (hs : s.Manned) (h : s.world.Comes e x g g')
    (hplayer : e.isPlayer = true) (hlost : e.id ∉ s.world.lost) :
    ¬ s.sessions.Controls e.id ∧
      ∀ id, (s.world.welcome e g').Plays id ↔ id = e.id ∨ s.world.Plays id := by
  constructor
  · intro hcontrols
    obtain ⟨map, g₀, hg₀, hhosts⟩ := (hs.crew e.id).mpr ⟨hcontrols, hlost⟩
    have hfree := hs.sound.mapOf_of_hosts hg₀ hhosts
    rw [h.free] at hfree
    cases hfree
  · intro id
    rw [World.plays_welcome h, hplayer]
    simp only [and_true]

/-- A server stays manned when a player comes and is bound to a client. -/
theorem Manned.bind (hs : s.Manned) (h : s.world.Comes e x g g') (hrest : e.AtRest)
    (hplayer : e.isPlayer = true) (hissued : s.world.Issued e.id) (hlost : e.id ∉ s.world.lost)
    (hbind : s.sessions.bind c e.id = .ok r) :
    ({ world := s.world.welcome e g', sessions := r } : Server).Manned := by
  obtain ⟨-, hplays⟩ := hs.plays_welcome h hplayer hlost
  refine ⟨hs.sound.welcome h hrest hissued, hs.idle, hs.lost, hs.consistent.bind hbind, ?_⟩
  intro id
  rw [hplays, Registry.controls_bind hbind, hs.crew]
  constructor
  · rintro (rfl | ⟨hcontrols, hid⟩)
    · exact ⟨.inl rfl, hlost⟩
    · exact ⟨.inr hcontrols, hid⟩
  · rintro ⟨rfl | hcontrols, hid⟩
    · exact .inl rfl
    · exact .inr ⟨hcontrols, hid⟩

/-- A character that nobody gets leaves again. -/
theorem Manned.dismiss_welcome (hs : s.Manned) (h : s.world.Comes e x g g') (hrest : e.AtRest)
    (hplayer : e.isPlayer = true) (hissued : s.world.Issued e.id) (hlost : e.id ∉ s.world.lost) :
    ({ s with world := s.world.welcome e g' }.dismiss e.id).Manned := by
  obtain ⟨hfree, hplays⟩ := hs.plays_welcome h hplayer hlost
  refine manned_dismiss (hs.sound.welcome h hrest hissued) hs.idle hs.lost hs.consistent hfree ?_
  intro id hid
  show (s.world.welcome e g').Plays id ↔ _
  rw [hplays, or_iff_right hid]
  exact hs.crew id

end Welcome

/-- A client gets a character of its own, or everything is as it was but for what was used up. -/
theorem leads_enter (s : Server) (c : ConnectionId) (name : String) :
    s.Leads (s.enter c name).2 := by
  rw [enter]
  split
  · exact .refl s
  obtain ⟨w₁, hdev, hissued, hlost, hdeferred, hrest⟩ := s.world.enter_cases name
  have hfirst : s.Leads { s with world := w₁ } :=
    leads_of_develops hdev hdeferred
  obtain ⟨err, h⟩ | ⟨e, x, g, g', hcomes, -, hatRest, hplayer, hid, h⟩ := hrest
  · rw [h]
    exact hfirst
  have hgiven : w₁.Issued e.id :=
    ⟨s.world.issued + 1, Nat.succ_pos _, Nat.le_of_eq hissued.symm, hid⟩
  have hunlost (hs : s.Manned) (hlt : s.world.issued + 1 < UInt32.size) : e.id ∉ w₁.lost := by
    rw [hlost, hid]
    exact fun hmem => not_issued_nth hlt (hs.lost _ hmem)
  rw [h]
  rcases hbind : s.sessions.bind c e.id with err | r
  · -- the client was not connected, and nobody is left to control the character
    have hissued' := issued_dismiss { s with world := w₁.welcome e g' } e.id
    simp only [hbind]
    refine ⟨?_, fun hs => hs, ?_⟩
    · rw [hissued']
      exact hfirst.issued_le
    · intro hlt hs
      rw [hissued'] at hlt
      have hlt' : w₁.issued < UInt32.size := hlt
      exact (hfirst.manned hlt' hs).dismiss_welcome hcomes hatRest hplayer hgiven
        (hunlost hs (by rwa [← hissued]))
  · simp only [hbind]
    refine ⟨hfirst.issued_le, fun hs => hs.bind hbind, ?_⟩
    intro hlt hs
    have hlt' : w₁.issued < UInt32.size := hlt
    exact (hfirst.manned hlt' hs).bind hcomes hatRest hplayer hgiven
      (hunlost hs (by rwa [← hissued])) hbind

/-! ### Everything that can come to a server -/

/-- Nobody comes or leaves when a client walks, attacks or speaks; and who asks to leave does. -/
theorem leads_act {c : ConnectionId} {e : EntityId} (he : s.sessions.entityOf c = some e)
    (request : Request) : s.Leads (s.act c e request) := by
  cases request with
  | enter name => exact .refl s
  | leave => exact leads_dismiss (s.sessions.drops_unbind c) he
  | walk p =>
    rw [act]
    rcases h : s.world.setDestination e p with err | w
    · exact .refl s
    · obtain ⟨map, g, hmap, rfl⟩ := exists_of_setDestination h
      exact leads_of_develops (.single (.walks hmap e p trivial)) rfl
  | attack =>
    rw [act]
    rcases h : s.world.attack e with err | w
    · exact .refl s
    · obtain ⟨map, g, hmap, rfl⟩ := exists_of_attack h
      exact leads_of_develops (.single (.attacks hmap e trivial)) rfl
  | say text =>
    rw [act]
    rcases h : s.world.say e text with err | ⟨n, w⟩
    · exact .refl s
    · obtain ⟨speaker, m, ids, hm, rfl⟩ := exists_of_say h
      exact leads_of_develops (.single (.speaks hm ids)) rfl

/-- A tick leaves the players manned but for those who are lost in it. -/
theorem leads_tick (s : Server) : s.Leads { s with world := s.world.tick.2 } := by
  have hany : Develops {} s.world s.world.tick.2 :=
    develops_tick (fun d _ => Terms.mayApply (fun _ => trivial) (fun _ => trivial) d)
      (fun _ => trivial) fun _ => trivial
  refine ⟨hany.issued_le, fun hs => hs, ?_⟩
  intro hlt hs
  have hidle : ∀ d ∈ s.world.deferred, Terms.closed.MayApply d := by
    rw [hs.idle]
    exact fun _ h => absurd h List.not_mem_nil
  have hclosed : Develops .closed s.world s.world.tick.2 :=
    develops_tick hidle (fun _ => trivial) fun _ => trivial
  exact hs.develops hclosed s.world.deferred_tick hlt

/-- Whatever comes to a server, it sends everything out after what it has done, or it leaves the
world alone and gives nobody a character. -/
theorem handle_cases {event : Event} (hs : s.Admits event) : ∃ s', s.Leads s' ∧
    ((s.handle event).2 = s'.flush.2 ∨ (s.handle event).2 = s' ∧ s'.world = s.world ∧
      ∀ id, s'.sessions.Controls id → s.sessions.Controls id) := by
  cases event with
  | connect c =>
    have hdrops := s.sessions.drops_register c
    have hnone : s.sessions.entityOf c = none := by
      rw [Registry.entityOf, hs]
      rfl
    exact ⟨s.connect c, leads_drops hdrops hnone, .inr ⟨rfl, rfl, fun id => hdrops.controls⟩⟩
  | close c =>
    refine ⟨s.close c, leads_of_controls_iff (fun h => h.close c) ?_, .inr ⟨rfl, rfl, ?_⟩⟩
    · intro _
      exact s.sessions.controls_close c
    · exact fun id => (s.sessions.controls_close c id).mp
  | frame c bytes =>
    have hsame : ∃ s', s.Leads s' ∧ (s = s'.flush.2 ∨ s = s' ∧ s'.world = s.world ∧
        ∀ id, s'.sessions.Controls id → s.sessions.Controls id) :=
      ⟨s, .refl s, .inr ⟨rfl, rfl, fun _ h => h⟩⟩
    rw [handle, handleFrame]
    split
    · exact hsame
    · exact ⟨_, s.leads_enter c _, .inl rfl⟩
    · split
      · exact hsame
      · exact ⟨_, leads_act ‹_› _, .inl rfl⟩
  | disconnect c =>
    have hdrops := s.sessions.drops_unregister c
    have heq : (s.sessions.unregister c).1 = s.sessions.entityOf c := rfl
    rcases he : s.sessions.entityOf c with _ | e
    · refine ⟨_, leads_drops hdrops he, .inr ⟨?_, rfl, fun id => hdrops.controls⟩⟩
      simp only [handle, disconnect, heq, he]
    · refine ⟨_, leads_dismiss hdrops he, .inl ?_⟩
      simp only [handle, disconnect, heq, he]
  | tick => exact ⟨_, s.leads_tick, .inl rfl⟩

/-- Nobody who is lost has a client any more. -/
def Released (s : Server) : Prop := ∀ id ∈ s.world.lost, ¬ s.sessions.Controls id

/-- When something has come to a server and has been dealt with, the server is manned as before. -/
theorem leads_handle {event : Event} (hs : s.Admits event) :
    s.Leads (s.handle event).2 ∧ (s.Released → (s.handle event).2.Released) := by
  obtain ⟨s', hleads, h | ⟨h, hworld, hcontrols⟩⟩ := handle_cases hs
  · rw [h]
    exact ⟨hleads.trans (leads_flush s'), fun _ id hid => absurd hid List.not_mem_nil⟩
  · rw [h]
    refine ⟨hleads, fun hreleased id hid hid' => hreleased id ?_ (hcontrols id hid')⟩
    rwa [← hworld]

/-- The two views that a server has of its clients always agree. -/
theorem consistent_of_becomes {w : World} (h : Becomes { world := w } s) :
    s.sessions.Consistent :=
  h.invariant (P := fun v => v.sessions.Consistent) Registry.consistent_empty
    fun _ _ hv hevent => (leads_handle hevent).1.consistent hv

/-- A server that begins with a world without entities is always manned, and nobody who is lost has
a client. -/
theorem manned_of_becomes {config : WorldConfig} {atlas : Atlas} {w₀ : World}
    (h₀ : Reaches World.execute World.Allows (.empty config atlas) w₀) (hvacant : w₀.Vacant)
    (h : Becomes { world := w₀ } s) (hlt : s.world.issued < UInt32.size) : s.Manned ∧ s.Released := by
  refine h.invariant (P := fun v => v.world.issued < UInt32.size → v.Manned ∧ v.Released) ?_ ?_ hlt
  · intro hlt
    have hempty : (World.empty config atlas).Sound := sound_empty config atlas
    have hdev := develops_of_allows h₀
    have hsound : w₀.Sound := hempty.develops hdev hlt
    have hlost : ∀ id ∈ w₀.lost, w₀.Issued id :=
      hempty.issued_of_lost_develops (fun _ hid => absurd hid List.not_mem_nil) hdev hlt
    refine ⟨⟨hsound, hvacant.idle, hlost, Registry.consistent_empty, ?_⟩, fun id _ =>
      Registry.not_controls_empty id⟩
    intro id
    exact iff_of_false (hvacant.not_plays id) fun h => Registry.not_controls_empty id h.1
  · intro v event hv hevent hlt
    obtain ⟨hleads, hreleased⟩ := leads_handle hevent
    obtain ⟨hmanned, hreleased₀⟩ := hv (Nat.lt_of_le_of_lt hleads.issued_le hlt)
    exact ⟨hleads.manned hlt hmanned, hreleased hreleased₀⟩

/-- At any moment the two views that a server has of its clients agree, no character has two
clients, no client has two characters, and somebody controls a character exactly when it is a player
on some map. -/
theorem crew_of_becomes {config : WorldConfig} {atlas : Atlas} {w₀ : World} {s : Server}
    (h₀ : Reaches World.execute World.Allows (.empty config atlas) w₀) (hvacant : w₀.Vacant)
    (h : Becomes { world := w₀ } s) :
    (∀ c e, s.sessions.connectionOf e = some c ↔ s.sessions.entityOf c = some e) ∧
    (∀ c c' e, s.sessions.entityOf c = some e → s.sessions.entityOf c' = some e → c = c') ∧
    (∀ c e e', s.sessions.connectionOf e = some c → s.sessions.connectionOf e' = some c → e = e') ∧
    (s.world.issued < UInt32.size → ∀ e, (∃ c, s.sessions.entityOf c = some e) ↔
      ∃ map g p, s.world.region? map = some g ∧ p ∈ g.players ∧ p.id = e) := by
  have hconsistent := consistent_of_becomes h
  refine ⟨hconsistent, fun c c' e => hconsistent.connection_eq, ?_, ?_⟩
  · intro c e e' hc hc'
    rw [hconsistent] at hc hc'
    exact Option.some.inj (hc.symm.trans hc')
  · intro hlt e
    obtain ⟨hmanned, hreleased⟩ := manned_of_becomes h₀ hvacant h hlt
    rw [← hmanned.sound.plays_iff, hmanned.crew]
    exact ⟨fun hcontrols => ⟨hcontrols, fun hlost => hreleased e hlost hcontrols⟩, And.left⟩

/-! ### An example -/

/-- A client. -/
def home (port : UInt16) : ConnectionId := .v4 ⟨127, 0, 0, 1⟩ port

/-- The frame in which a client asks for a character. -/
def entering (name : String) : Bytes :=
  ((Request.encode (.enter name)).toOption.map Message.bytes).getD []

/-- A client that is connected and one that is not have asked for characters, and a tick has passed.
-/
def visit : Server :=
  [.connect (home 1), .frame (home 1) (entering "Ann"), .frame (home 2) (entering "Ben"),
    .tick].foldl (fun s event => (s.handle event).2) (fresh {} World.hamlet)

theorem becomes_visit : Becomes (fresh {} World.hamlet) visit := by
  have hconnect : (fresh {} World.hamlet).Admits (.connect (home 1)) := by
    simp [Admits, fresh]
  have hconnected : Becomes (fresh {} World.hamlet) _ := Reaches.refl.step _ hconnect
  have hentered := hconnected.step (.frame (home 1) (entering "Ann")) trivial
  exact (hentered.step (.frame (home 2) (entering "Ben")) trivial).step .tick trivial

theorem vacant_empty (config : WorldConfig) (atlas : Atlas) :
    (World.empty config atlas).Vacant where
  nobody map g h := by simp [World.empty, region?] at h
  idle := rfl

/-- Ann is bound to the client that asked for her, and is on a map. -/
theorem crew_at_visit :
    visit.sessions.entityOf (home 1) = some (.nth 1) ∧
      ∃ map g p, visit.world.region? map = some g ∧ p ∈ g.players ∧ p.id = .nth 1 := by
  obtain ⟨-, -, -, hcrew⟩ := crew_of_becomes .refl (vacant_empty {} World.hamlet) becomes_visit
  have hann : visit.sessions.entityOf (home 1) = some (.nth 1) := by cbv
  have hissued : visit.world.issued = 2 := by cbv
  have hlt : visit.world.issued < UInt32.size := by rw [hissued]; decide
  exact ⟨hann, (hcrew hlt _).mp ⟨home 1, hann⟩⟩

end Server

end TileWorld
