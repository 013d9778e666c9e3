import TileWorld.Proofs.Server.Commands
import TileWorld.Proofs.World.Confinement

/-!
# What a client has a say in

Whatever frame comes in from a client, nobody is concerned but the character of that client
(`Server.Minds`), and all that others get to hear of it is that this character speaks or leaves
(`Server.Hears`). This is `Server.minds_of_becomes`. Who is concerned does not depend on whether
identities have come round; what others hear does, since a character under an identity that is in use
could be taken for somebody else.
-/

namespace TileWorld

open World

namespace Server

variable {s s' s'' : Server} {c : ConnectionId} {e : EntityId} {event : Event} {M N : MapId → Prop}

/-! ### Servers that come about -/

theorem housed_handle (hs : s.world.Housed) (event : Event) : (s.handle event).2.world.Housed :=
  keeps_handle (fun _ k _ hw => hw.execute k) (fun _ _ hw => hw.congr rfl rfl) hs

/-- Whoever is listed on a map is there, whatever has come to the server. -/
theorem housed_of_becomes {config : WorldConfig} {atlas : Atlas} {w₀ : World}
    (h₀ : Reaches World.execute World.Allows (.empty config atlas) w₀)
    (h : Becomes { world := w₀ } s) : s.world.Housed :=
  h.invariant (P := fun v => v.world.Housed) (housed_of_reaches (h₀.mono fun _ _ _ => trivial))
    fun _ event hv _ => housed_handle hv event

/-- A server that takes over a world from a run is steady, whatever comes to it. -/
theorem steady_of_becomes {config : WorldConfig} {atlas : Atlas} {w₀ : World}
    (h₀ : Reaches World.execute World.Allows (.empty config atlas) w₀)
    (h : Becomes { world := w₀ } s) (hlt : s.world.issued < UInt32.size) : s.Steady := by
  refine h.invariant (P := fun v => v.world.issued < UInt32.size → v.Steady) (fun hlt => ?_)
    (fun v event hv _ hlt => ?_) hlt
  · exact ⟨(sound_empty config atlas).develops (develops_of_allows h₀) hlt, unwarped_of_reaches h₀,
      Registry.consistent_empty, fun id hid => absurd hid (Registry.not_controls_empty id)⟩
  · have hpreserves := v.preserves_handle event
    exact hpreserves.steady (hv (Nat.lt_of_le_of_lt hpreserves.issued_le hlt)) hlt

/-! ### Whom a frame concerns -/

/-- The client controls the character, and the character is listed on the map. -/
def Owns (s : Server) (c : ConnectionId) (m : MapId) (k : EntityId) : Prop :=
  s.sessions.entityOf c = some k ∧ s.world.mapOf k = some m

/-- The character of the client is on the map, or the client has none and asks for one that belongs
there. -/
def Concerns (s : Server) (c : ConnectionId) (bytes : Bytes) (m : MapId) : Prop :=
  (∃ k, s.Owns c m k) ∨ s.sessions.entityOf c = none ∧
    ∃ name, Request.decode bytes = .ok (.enter name) ∧ m = (s.world.characterOf name).map

/-- Nobody has been concerned but the character of the client, and nothing has happened but on the maps
in `M`. -/
structure Minds (c : ConnectionId) (M : MapId → Prop) (s s' : Server) : Prop where
  /-- All other maps are as they were, everybody else is where it was and as it was, and nothing else in
  the world has moved. -/
  confined : ConfinedTo M (fun m k => s.Owns c m k ∨ s'.Owns c m k) s.world s'.world
  /-- The character of the client is where it was, or it is a new player and the client had none. -/
  newcomer : ∀ m k, s'.Owns c m k → s.Owns c m k ∨ s.sessions.entityOf c = none ∧
    s.world.mapOf k = none ∧ (∀ o, ¬ s.world.Finds m k o) ∧
      ∃ o, s'.world.Finds m k o ∧ o.isPlayer = true
  /-- The other clients are connected as they were, and have the characters that they had. -/
  others : ∀ c', c' ≠ c → s'.sessions.sessions[c']? = s.sessions.sessions[c']?
  /-- The other clients are the clients of the characters whose clients they were. -/
  controllers : ∀ c', c' ≠ c → ∀ k,
    s'.sessions.connectionOf k = some c' ↔ s.sessions.connectionOf k = some c'

theorem Minds.refl (c : ConnectionId) (M : MapId → Prop) (s : Server) : Minds c M s s :=
  ⟨.refl _ _ s.world, fun _ _ h => .inl h, fun _ _ => rfl, fun _ _ _ => .rfl⟩

/-- Nothing has happened on other maps if nothing has happened on fewer. -/
theorem Minds.mono (h : Minds c M s s') (hMN : ∀ m, M m → N m) : Minds c N s s' :=
  ⟨h.confined.mono hMN fun _ _ => id, h.newcomer, h.others, h.controllers⟩

/-- What each client controls settles the question of who controls whom. -/
theorem controllers_of_others (hs : s.sessions.Consistent) (hs' : s'.sessions.Consistent)
    {c' : ConnectionId} (h : s'.sessions.sessions[c']? = s.sessions.sessions[c']?) (k : EntityId) :
    s'.sessions.connectionOf k = some c' ↔ s.sessions.connectionOf k = some c' := by
  rw [hs, hs', Registry.entityOf, Registry.entityOf, h]

/-- The world changes where the client's character is. -/
theorem minds_of_confined {w : World} (h : ConfinedTo M (s.Owns c) s.world w)
    (hmapOf : w.locations = s.world.locations) : Minds c M s { s with world := w } where
  confined := h.mono (fun _ => id) fun _ _ => .inl
  newcomer m k hk := by
    refine .inl ⟨hk.1, ?_⟩
    rw [World.mapOf, ← hmapOf]
    exact hk.2
  others _ _ := rfl
  controllers _ _ _ := .rfl

/-- The client has parted from its character, and nobody has been touched but it. -/
theorem minds_of_drops {w : World} {r : Registry} (hs : s.sessions.Consistent)
    (hr : s.sessions.Drops r c) (h : ConfinedTo M (s.Owns c) s.world w)
    (hothers : ∀ c', c' ≠ c → r.sessions[c']? = s.sessions.sessions[c']?) :
    Minds c M s { world := w, sessions := r } where
  confined := h.mono (fun _ => id) fun _ _ => .inl
  newcomer m k hk := by
    have hk' : r.entityOf c = some k := hk.1
    rw [hr.entityOf, if_pos rfl] at hk'
    cases hk'
  others := hothers
  controllers c' hne := controllers_of_others hs (hs.drops hr) (hothers c' hne)

/-- What a client asks of its character happens on the map of the character. -/
theorem minds_act (hs : s.sessions.Consistent) (hhoused : s.world.Housed)
    (he : s.sessions.entityOf c = some e) (request : Request) :
    Minds c (fun m => ∃ k, s.Owns c m k) s (s.act c e request) := by
  cases request with
  | enter name => exact .refl c _ s
  | walk p =>
    rw [act]
    rcases h : s.world.setDestination e p with err | w
    · exact .refl c _ s
    · obtain ⟨map, g, hmap, hg, -, -, rfl⟩ := setDestination_eq_ok_iff.mp h
      have howns : s.Owns c map e := ⟨he, hmap⟩
      exact minds_of_confined (confinedTo_modify hg (hhoused.id_eq hg) ⟨e, howns⟩ howns _) rfl
  | attack =>
    rw [act]
    rcases h : s.world.attack e with err | w
    · exact .refl c _ s
    · obtain ⟨map, g, hmap, hg, -, rfl⟩ := attack_eq_ok_iff.mp h
      have howns : s.Owns c map e := ⟨he, hmap⟩
      exact minds_of_confined (confinedTo_modify hg (hhoused.id_eq hg) ⟨e, howns⟩ howns _) rfl
  | say text =>
    rw [act]
    rcases h : s.world.say e text with err | ⟨n, w⟩
    · exact .refl c _ s
    · obtain ⟨speaker, m, ids, -, rfl⟩ := exists_of_say h
      exact minds_of_confined (confinedTo_of_eq _ _ ⟨rfl, rfl, rfl, rfl, rfl⟩ rfl rfl) rfl
  | leave =>
    have hothers (c' : ConnectionId) (hne : c' ≠ c) :
        (s.sessions.unbind c).2.sessions[c']? = s.sessions.sessions[c']? :=
      (Table.getElem?_modify ..).trans (if_neg hne)
    refine minds_of_drops hs (s.sessions.drops_unbind c) ?_ hothers
    rcases h : s.world.remove e .disconnect with _ | ⟨gone, w⟩
    · exact .refl _ _ s.world
    · exact confinedTo_remove h (fun m hm => ⟨e, he, hm⟩) fun m hm => ⟨he, hm⟩

/-- A new player comes, and the client controls it. -/
theorem minds_bind (hs : s.sessions.Consistent) (hnone : s.sessions.entityOf c = none) {w : World}
    (hw : ConfinedTo M (fun _ _ => False) s.world w) {o : Entity} {x : PublicId} {g g' : Region}
    (hcomes : w.Comes o x g g') (hM : M o.map) (hplayer : o.isPlayer = true) {r : Registry}
    (hbind : s.sessions.bind c o.id = .ok r) :
    Minds c M s { world := w.welcome o g', sessions := r } := by
  have hlisted : (w.welcome o g').mapOf o.id = some o.map :=
    (Table.getElem?_insert ..).trans (if_pos rfl)
  have hgets : r.entityOf c = some o.id := (Registry.entityOf_bind hbind c).trans (if_pos rfl)
  have hothers (c' : ConnectionId) (hne : c' ≠ c) : r.sessions[c']? = s.sessions.sessions[c']? := by
    obtain ⟨-, session, -, -, rfl⟩ := Registry.bind_eq_ok_iff.mp hbind
    exact (Table.getElem?_insert ..).trans (if_neg hne)
  have hcame : ConfinedTo M (fun m k => m = o.map ∧ k = o.id) w (w.welcome o g') :=
    confinedTo_welcome hcomes hM ⟨rfl, rfl⟩
  refine ⟨?_, fun m k hk => .inr ⟨hnone, ?_⟩, hothers, fun c' hne =>
    controllers_of_others hs (hs.bind hbind) (hothers c' hne)⟩
  · refine (hw.mono (fun _ => id) fun _ _ => False.elim).trans (hcame.mono (fun _ => id) ?_)
    rintro m k ⟨rfl, rfl⟩
    exact .inr ⟨hgets, hlisted⟩
  · obtain rfl : k = o.id := Option.some.inj (hk.1.symm.trans hgets)
    obtain rfl : m = o.map := Option.some.inj (hk.2.symm.trans hlisted)
    obtain ⟨-, hnobody, -⟩ := Region.insert_eq_ok_iff.mp hcomes.insert
    refine ⟨(hw.mapOf o.id fun _ => id).symm.trans hcomes.free, fun o₀ ho₀ => ?_, ?_⟩
    · obtain ⟨g₀, hg₀, ho₀⟩ := (hw.finds o.map o.id o₀ id).mpr ho₀
      obtain rfl : g = g₀ := Option.some.inj (hcomes.region.symm.trans hg₀)
      rw [hnobody] at ho₀
      cases ho₀
    · refine ⟨o.arrived x, ⟨g'.mark o.id, (Table.getElem?_insert ..).trans (if_pos rfl), ?_⟩,
        hplayer⟩
      rw [Region.find?_mark_insert hcomes.insert, if_pos rfl]

/-- Who asks for a character concerns the map where the character belongs, and only if it has none. -/
theorem minds_enter (hs : s.sessions.Consistent) (c : ConnectionId) (name : String) :
    Minds c (fun m => s.sessions.entityOf c = none ∧ m = (s.world.characterOf name).map) s
      (s.enter c name).2 := by
  rw [enter]
  split
  · exact .refl c _ s
  rename_i hfree
  have hnone : s.sessions.entityOf c = none := Option.not_isSome_iff_eq_none.mp hfree
  refine Minds.mono (M := (· = (s.world.characterOf name).map)) ?_ fun m hm => ⟨hnone, hm⟩
  have hunmoved {w : World}
      (h : ConfinedTo (· = (s.world.characterOf name).map) (fun _ _ => False) s.world w) :
      Minds c (· = (s.world.characterOf name).map) s { s with world := w } := by
    refine ⟨h.mono (fun _ => id) fun _ _ => False.elim, fun m k hk => ?_, fun _ _ => rfl,
      fun _ _ _ => .rfl⟩
    exact absurd (hnone.symm.trans hk.1) (by simp)
  obtain ⟨w₁, hconf, -, -, ⟨err, h⟩ | ⟨o, x, g, g', hcomes, hmap, -, hplayer, -, h⟩⟩ :=
    s.world.enter_confined name
  · rw [h]
    exact hunmoved hconf
  · rw [h]
    rcases hbind : s.sessions.bind c o.id with err | r
    · -- the character has come and has left again
      obtain ⟨gone, w₂, hrem, hback⟩ := hcomes.exists_remove .disconnect
      simp only [hbind, dismiss, hrem]
      rw [hmap] at hback
      exact hunmoved (hconf.trans hback)
    · simp only [hbind]
      exact minds_bind hs hnone hconf hcomes hmap hplayer hbind

/-- Nobody is released when everything goes out, if nobody is lost. -/
theorem Minds.flush (h : Minds c M s s') (hs : s.Settled) : Minds c M s s'.flush.2 := by
  have hlost : s'.world.lost = [] := h.confined.rest.lost.trans hs.lost
  have hsessions : s'.flush.2.sessions = s'.sessions := by
    show s'.world.lost.foldl _ s'.sessions = _
    rw [hlost]
    rfl
  have hout : ConfinedTo M (fun _ _ => False) s'.world s'.flush.2.world :=
    confinedTo_of_eq _ _ ⟨rfl, rfl, rfl, rfl, hlost.symm⟩ rfl rfl
  have howns (m : MapId) (k : EntityId) : s'.flush.2.Owns c m k ↔ s'.Owns c m k := by
    rw [Owns, Owns, hsessions, hout.mapOf k fun _ => id]
  refine ⟨?_, fun m k hk => ?_, ?_, ?_⟩
  · simp only [howns]
    exact h.confined.trans (hout.mono (fun _ => id) fun _ _ => False.elim)
  · refine (h.newcomer m k ((howns m k).mp hk)).imp_right ?_
    rintro ⟨hnone, hfree, hnobody, o, ho, hplayer⟩
    exact ⟨hnone, hfree, hnobody, o, (hout.finds m k o id).mpr ho, hplayer⟩
  · rw [hsessions]
    exact h.others
  · rw [hsessions]
    exact h.controllers

/-- A frame concerns nobody but the character of its client, and no map but the one where that is or
comes. -/
theorem minds_handleFrame (hs : s.sessions.Consistent) (hhoused : s.world.Housed)
    (hsettled : s.Settled) (c : ConnectionId) (bytes : Bytes) :
    Minds c (s.Concerns c bytes) s (s.handleFrame c bytes).2 := by
  rw [handleFrame]
  split
  · exact .refl c _ s
  · rename_i name hask
    refine ((minds_enter hs c name).flush hsettled).mono ?_
    rintro m ⟨hnone, hm⟩
    exact .inr ⟨hnone, name, hask, hm⟩
  · split
    · exact .refl c _ s
    · exact ((minds_act hs hhoused ‹_› _).flush hsettled).mono fun m => .inl

/-! ### What others hear -/

/-- What others may get to hear when a frame comes in from a client: its character speaks, or it
leaves, or a character has left that came for a client who is not connected. -/
inductive Hears (s : Server) (c : ConnectionId) (bytes : Bytes) : Bytes → Prop where
  /-- The character of the client speaks. -/
  | speech {text : String} {m : MapId} {k : EntityId} {o : Entity} {x : PublicId} {message : Message}
    (hask : Request.decode bytes = .ok (.say text)) (howns : s.Owns c m k)
    (hfinds : s.world.Finds m k o) (hx : o.publicId = some x)
    (hmessage : chatNotice (some x) text = .ok message) : Hears s c bytes message.bytes
  /-- The character of the client leaves. -/
  | leave {m : MapId} {k : EntityId} {o : Entity} {x : PublicId}
    (hask : Request.decode bytes = .ok .leave) (howns : s.Owns c m k)
    (hfinds : s.world.Finds m k o) (hx : o.publicId = some x) : Hears s c bytes (leaveNotice x).bytes
  /-- A character has come that nobody can control, and has left again. -/
  | retreat {name : String} {k : EntityId} {x : PublicId}
    (hask : Request.decode bytes = .ok (.enter name)) (hnobody : s.sessions.sessions[c]? = none)
    (henter : (s.world.enter name).1 = .ok (k, x)) (hnew : s.world.mapOf k = none)
    (hgone : (s.handleFrame c bytes).2.world.mapOf k = none) : Hears s c bytes (leaveNotice x).bytes

/-- What goes out because a character did something, others may get to hear. -/
theorem hears_act (hs : s.Steady) (hsettled : s.Settled) (he : s.sessions.entityOf c = some e)
    {bytes : Bytes} {request : Request} (hask : Request.decode bytes = .ok request) {d : Delivery}
    (hd : d ∈ (s.act c e request).world.outbox) : s.Hears c bytes d.message.bytes := by
  have hnothing : d ∉ s.world.outbox := by
    rw [hsettled.outbox]
    exact List.not_mem_nil
  cases request with
  | enter name => exact absurd hd hnothing
  | walk p =>
    rw [act] at hd
    rcases h : s.world.setDestination e p with err | w
    · rw [h] at hd
      exact absurd hd hnothing
    · rw [h] at hd
      obtain ⟨map, g, -, rfl⟩ := exists_of_setDestination h
      exact absurd hd hnothing
  | attack =>
    rw [act] at hd
    rcases h : s.world.attack e with err | w
    · rw [h] at hd
      exact absurd hd hnothing
    · rw [h] at hd
      obtain ⟨map, g, -, rfl⟩ := exists_of_attack h
      exact absurd hd hnothing
  | say text =>
    rw [act] at hd
    rcases h : s.world.say e text with err | ⟨n, w⟩
    · rw [h] at hd
      exact absurd hd hnothing
    · rw [h] at hd
      obtain ⟨map, g, speaker, message, hmap, hg, hspeaker, hmessage, hsaid⟩ := say_eq_ok_iff.mp h
      cases hsaid
      obtain hd | hd := List.mem_append.mp hd
      · exact absurd hd hnothing
      · obtain ⟨k, -, rfl⟩ := List.mem_map.mp hd
        obtain ⟨x, hx, -⟩ := (hs.sound.region hg).2.numbered.taken hspeaker
        rw [hx] at hmessage
        exact .speech hask ⟨he, hmap⟩ ⟨g, hg, hspeaker⟩ hx hmessage
  | leave =>
    rw [act, dismiss] at hd
    rcases h : s.world.remove e .disconnect with _ | ⟨gone, w⟩
    · simp only [h] at hd
      exact absurd hd hnothing
    · simp only [h] at hd
      obtain hd | ⟨m, o, x, hmap, hfinds, hx, hmessage⟩ := mem_outbox_of_remove h hd
      · exact absurd hd hnothing
      · rw [hmessage]
        exact .leave hask ⟨he, hmap⟩ hfinds hx

/-- A character comes that nobody can control, and leaves again. What this adds to the queue after the
greetings is its leave. -/
theorem hears_retreat (hs : s.Steady) (hnone : s.sessions.entityOf c = none) {bytes : Bytes}
    {name : String} (hask : Request.decode bytes = .ok (.enter name)) {w w' : World} {o gone : Entity}
    {x : PublicId} {g g' : Region} (hcomes : w.Comes o x g g')
    (henter : s.world.enter name = (.ok (o.id, x), w.welcome o g')) (hnew : ¬ s.world.Issued o.id)
    {err : SessionError} (hbind : s.sessions.bind c o.id = .error err)
    (hrem : (w.welcome o g').remove o.id .disconnect = some (gone, w'))
    (hfree : s.world.mapOf o.id = none)
    (hgone : (s.handleFrame c bytes).2.world.mapOf o.id = none) {d : Delivery} (hd : d ∈ w'.outbox) :
    d ∈ (w.welcome o g').outbox ∨ s.Hears c bytes d.message.bytes := by
  obtain hd | ⟨m, o₀, y, hm, hfinds, hy, hmessage⟩ := mem_outbox_of_remove hrem hd
  · exact .inl hd
  have hlisted : (w.welcome o g').mapOf o.id = some o.map :=
    (Table.getElem?_insert ..).trans (if_pos rfl)
  obtain rfl : m = o.map := Option.some.inj (hm.symm.trans hlisted)
  obtain ⟨-, ho₀⟩ | ⟨hne, -⟩ := (finds_update_iff fun _ => Table.getElem?_insert ..).mp hfinds
  · rw [Region.find?_mark_insert hcomes.insert, if_pos rfl] at ho₀
    cases ho₀
    obtain rfl : x = y := Option.some.inj hy
    rw [hmessage]
    refine .inr (.retreat hask ?_ (by rw [henter]) hfree hgone)
    refine Option.not_isSome_iff_eq_none.mp fun hconnected => ?_
    obtain ⟨r, hr⟩ := exists_bind hs hconnected hnone hnew
    rw [hr] at hbind
    cases hbind
  · exact absurd rfl hne

/-- Whoever comes for a client that is not connected leaves again, and only its leave is heard. -/
theorem hears_enter (hs : s.Steady) (hsettled : s.Settled) {bytes : Bytes} {name : String}
    (hask : Request.decode bytes = .ok (.enter name))
    (hlt : (s.enter c name).2.world.issued < UInt32.size) {c' : ConnectionId} (hne : c' ≠ c)
    {d : Delivery} (hd : d ∈ (s.enter c name).2.world.outbox)
    (hto : (s.enter c name).2.sessions.entityOf c' = some d.recipient) :
    s.Hears c bytes d.message.bytes := by
  have hflush : (s.handleFrame c bytes).2 = (s.enter c name).2.flush.2 := by
    rw [handleFrame, hask]
  have hnothing : d ∉ s.world.outbox := by
    rw [hsettled.outbox]
    exact List.not_mem_nil
  rw [enter] at hd hto hlt hflush
  by_cases hfree : (s.sessions.entityOf c).isSome
  · rw [if_pos hfree] at hd
    exact absurd hd hnothing
  rw [if_neg hfree] at hd hto hlt hflush
  have hnone : s.sessions.entityOf c = none := Option.not_isSome_iff_eq_none.mp hfree
  obtain ⟨w₁, hconf, hout, hissued, ⟨err, h⟩ | ⟨o, x, g, g', hcomes, hmap, -, -, hid, h⟩⟩ :=
    s.world.enter_confined name
  · rw [h] at hd
    have hd : d ∈ w₁.outbox := hd
    rw [hout] at hd
    exact absurd hd hnothing
  rw [h] at hd hto hlt hflush
  have hunissued (hlt : w₁.issued < UInt32.size) : ¬ s.world.Issued o.id := by
    rw [hid]
    exact not_issued_nth (hissued ▸ hlt)
  -- nobody controls somebody who is new, so that a greeting reaches nobody else
  have hgreeting (hd : d ∈ (w₁.welcome o g').outbox) : d.recipient = o.id := by
    obtain hd | hd := List.mem_append.mp hd
    · rw [hout] at hd
      exact absurd hd hnothing
    · exact recipient_of_mem_arrivals hd
  rcases hbind : s.sessions.bind c o.id with err | r
  · obtain ⟨gone, w₂, hrem, hback⟩ := hcomes.exists_remove .disconnect
    simp only [hbind, dismiss, hrem] at hd hto hlt hflush
    have hnew : ¬ s.world.Issued o.id := by
      have hsame : w₂.issued = w₁.issued := (frame_remove hrem).issued
      exact hunissued (hsame ▸ hlt)
    have hunlisted : s.world.mapOf o.id = none :=
      (hconf.mapOf o.id fun _ => id).symm.trans hcomes.free
    have hgone : (s.handleFrame c bytes).2.world.mapOf o.id = none := by
      rw [hflush]
      rw [hmap] at hback
      exact ((hconf.trans hback).mapOf o.id fun _ => id).trans hunlisted
    obtain hd | hhears := hears_retreat hs hnone hask hcomes h hnew hbind hrem hunlisted hgone hd
    · rw [hgreeting hd] at hto
      exact absurd (hs.issued o.id ⟨c', hto⟩) hnew
    · exact hhears
  · simp only [hbind] at hd hto hlt
    have hto : r.entityOf c' = some d.recipient := hto
    rw [hgreeting hd, Registry.entityOf_bind hbind, if_neg hne] at hto
    exact absurd (hs.issued o.id ⟨c', hto⟩) (hunissued hlt)

/-- What others are sent when a frame comes in, they may get to hear. -/
theorem hears_of_mem (hs : s.Steady) (hsettled : s.Settled) {bytes : Bytes}
    (hlt : (s.handleFrame c bytes).2.world.issued < UInt32.size) {f : SentFrame}
    (hf : f ∈ (s.handleFrame c bytes).1) (hne : f.connection ≠ c) : s.Hears c bytes f.frame := by
  have hown {v : Server} (hv : v.sessions.Consistent) (hf : f ∈ v.flush.1) :
      ∃ d ∈ v.world.outbox, v.sessions.entityOf f.connection = some d.recipient ∧
        f.frame = d.message.bytes := by
    obtain ⟨d, hd, hto, hframe⟩ := (routes_of_consistent hv).own f hf
    exact ⟨d, hd, Registry.entityOf_of_releaseAll hto, hframe⟩
  rw [handleFrame] at hf hlt
  split at hf
  · cases hf
  · rename_i name hask
    obtain hf | hf := List.mem_append.mp hf
    · -- the answer goes to the client itself
      rw [Registry.send] at hf
      split at hf
      · rw [List.mem_singleton.mp hf] at hne
        exact absurd rfl hne
      · cases hf
    · obtain ⟨d, hd, hto, hframe⟩ := hown ((s.leads_enter c name).consistent hs.consistent) hf
      rw [hframe]
      simp only [hask] at hlt
      exact hears_enter hs hsettled hask hlt hne hd hto
  · rename_i request hne' hask
    split at hf
    · cases hf
    · rename_i e he
      obtain ⟨d, hd, -, hframe⟩ := hown ((leads_act he request).consistent hs.consistent) hf
      rw [hframe]
      exact hears_act hs hsettled he hask hd

/-! ### All frames -/

/-- Whatever has come to a server, a frame from a client concerns nobody but the character of the
client, and no map but the one where that character is or is to be; and others hear of it only that
this character speaks or leaves. A frame that makes no request does nothing at all, and neither does
anything but asking for a character if the client has none. -/
theorem minds_of_becomes {config : WorldConfig} {atlas : Atlas} {w₀ : World} {s : Server}
    (h₀ : Reaches World.execute World.Allows (.empty config atlas) w₀) (houtbox : w₀.outbox = [])
    (hlost : w₀.lost = []) (h : Becomes { world := w₀ } s) (c : ConnectionId) (bytes : Bytes) :
    Minds c (s.Concerns c bytes) s (s.handleFrame c bytes).2 ∧
    ((s.handleFrame c bytes).2.world.issued < UInt32.size →
      ∀ f ∈ (s.handleFrame c bytes).1, f.connection ≠ c → s.Hears c bytes f.frame) ∧
    ((∃ err, Request.decode bytes = .error err) → s.handleFrame c bytes = ([], s)) ∧
    ∀ request, Request.decode bytes = .ok request → (∀ name, request ≠ .enter name) →
      s.sessions.entityOf c = none → s.handleFrame c bytes = ([], s) := by
  have hsettled : s.Settled := Settled.becomes ⟨houtbox, hlost⟩ h
  refine ⟨?_, fun hlt f hf hne => ?_, ?_, ?_⟩
  · exact minds_handleFrame (consistent_of_becomes h) (housed_of_becomes h₀ h) hsettled c bytes
  · have hle : s.world.issued ≤ _ := (s.preserves_handle (.frame c bytes)).issued_le
    exact hears_of_mem (steady_of_becomes h₀ h (Nat.lt_of_le_of_lt hle hlt)) hsettled hlt hf hne
  · rintro ⟨err, herr⟩
    rw [handleFrame, herr]
  · intro request hask hnot hnone
    rw [handleFrame, hask]
    cases request with
    | enter name => exact absurd rfl (hnot name)
    | _ => simp only [hnone]

/-! ### An example -/

/-- Somebody else has joined the visitor. -/
def company : Server :=
  [.connect (home 2), .frame (home 2) (entering "Ben")].foldl (fun s event => (s.handle event).2) visit

theorem becomes_company : Becomes (fresh {} World.hamlet) company := by
  have hconnect : visit.Admits (.connect (home 2)) := by
    rw [Admits]
    cbv
  exact (becomes_visit.step _ hconnect).step (.frame (home 2) (entering "Ben")) trivial

/-- When the visitor says something then nobody has been concerned but the visitor, and the other one
hears it. -/
theorem minds_at_company :
    Minds (home 1) (company.Concerns (home 1) (asking (.say "Good morning"))) company
      (company.handleFrame (home 1) (asking (.say "Good morning"))).2 ∧
    ∃ f ∈ (company.handleFrame (home 1) (asking (.say "Good morning"))).1, f.connection = home 2 ∧
      company.Hears (home 1) (asking (.say "Good morning")) f.frame := by
  obtain ⟨hminds, hhears, -, -⟩ := minds_of_becomes .refl rfl rfl becomes_company (home 1)
    (asking (.say "Good morning"))
  have hrun : ((company.handleFrame (home 1) (asking (.say "Good morning"))).2.world.issued,
      (company.handleFrame (home 1) (asking (.say "Good morning"))).1.map SentFrame.connection) =
        (3, [home 1, home 2]) := by cbv
  simp only [Prod.mk.injEq] at hrun
  obtain ⟨hissued, hsent⟩ := hrun
  have hlt : (company.handleFrame (home 1) (asking (.say "Good morning"))).2.world.issued <
      UInt32.size := by
    rw [hissued]
    decide
  obtain ⟨f, hf, hc⟩ := List.mem_map.mp (hsent ▸ List.mem_cons_of_mem _ List.mem_cons_self)
  refine ⟨hminds, f, hf, hc, hhears hlt f hf ?_⟩
  rw [hc]
  decide

end Server

end TileWorld
