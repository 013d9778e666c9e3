import TileWorld.Proofs.Server.Crew
import TileWorld.Proofs.World.Loss
import TileWorld.Proofs.World.Pacing
import TileWorld.Proofs.World.Refusal

/-!
# What becomes of the client of a player that is gone

A server hears of players that are lost and takes their clients from them before anything goes out.
So the client of a player that falls out of the world in a warp, or in a tick that did not have to
remove it, is free and may ask for another character. Of a removal that waited for the end of a
pass the server does not hear: the client keeps a character that is nowhere, and is told that it is
in the world already (`Server.fate_of_reaches`).

The servers meant here may be asked things of their worlds by somebody else than a client, so that
clients may control characters who do not play, unlike those of which `Server.Manned` speaks.
-/

namespace TileWorld

open Relation World

namespace Server

variable {s s' s'' : Server} {c : ConnectionId} {e : EntityId}

/-! ### Servers whose worlds are asked things -/

/-- Something that happens to a server. -/
inductive Incident where
  /-- Something comes to the server from outside. -/
  | event (event : Event)
  /-- Something is asked of its world. -/
  | command (k : World.Command)
deriving Inhabited

/-- The server after something has happened to it. -/
def undergo (s : Server) : Incident → Server
  | .event event => (s.handle event).2
  | .command k => { s with world := s.world.execute k }

/-- Anything may come from outside, and the world may be asked anything. -/
def Tolerates (s : Server) : Incident → Prop
  | .event _ => True
  | .command k => s.world.Allows k

/-- Whatever happens to a server keeps its world sound and its registry consistent, and clients come
to control only characters under identities that the world has given out. -/
structure Preserves (s s' : Server) : Prop where
  issued_le : s.world.issued ≤ s'.world.issued
  sound : s'.world.issued < UInt32.size → s.world.Sound → s'.world.Sound
  unwarped : s.world.Unwarped → s'.world.Unwarped
  consistent : s.sessions.Consistent → s'.sessions.Consistent
  controls : s.sessions.Consistent →
    ∀ id, s'.sessions.Controls id → s.sessions.Controls id ∨ s'.world.Issued id

theorem Preserves.refl (s : Server) : s.Preserves s :=
  ⟨Nat.le_refl _, fun _ h => h, fun h => h, fun h => h, fun _ _ h => .inl h⟩

theorem Preserves.trans (h : s.Preserves s') (h' : s'.Preserves s'') : s.Preserves s'' where
  issued_le := Nat.le_trans h.issued_le h'.issued_le
  sound hlt hs := h'.sound hlt (h.sound (Nat.lt_of_le_of_lt h'.issued_le hlt) hs)
  unwarped hs := h'.unwarped (h.unwarped hs)
  consistent hs := h'.consistent (h.consistent hs)
  controls hs id hid := by
    obtain hid | hissued := h'.controls (h.consistent hs) id hid
    · exact (h.controls hs id hid).imp_right fun hissued => hissued.of_le h'.issued_le
    · exact .inr hissued

/-- The world is asked something. -/
theorem preserves_execute (s : Server) {k : World.Command} (hk : s.world.Allows k) :
    s.Preserves { s with world := s.world.execute k } := by
  have hdev : Develops {} s.world (s.world.execute k) := hk.develops
  exact ⟨hdev.issued_le, fun hlt hs => hs.develops hdev hlt, fun hs => hs.execute k, fun hs => hs,
    fun _ _ hid => .inl hid⟩

/-- The registry changes, and no client gets a character. -/
theorem preserves_registry {r : Registry} (hr : s.sessions.Consistent → r.Consistent)
    (h : ∀ id, r.Controls id → s.sessions.Controls id) : s.Preserves { s with sessions := r } :=
  ⟨Nat.le_refl _, fun _ hs => hs, fun hs => hs, hr, fun _ id hid => .inl (h id hid)⟩

theorem preserves_flush (s : Server) : s.Preserves s.flush.2 where
  issued_le := Nat.le_refl _
  sound _ hs := hs.congr rfl rfl (Nat.le_refl _)
  unwarped hs := hs
  consistent hs := (hs.releaseAll s.world.lost).1
  controls hs id hid := .inl (((hs.releaseAll s.world.lost).2 id).mp hid).1

theorem preserves_dismiss (s : Server) (e : EntityId) : s.Preserves (s.dismiss e) := by
  have heq : s.dismiss e = { s with world := s.world.execute (.remove e .disconnect) } := by
    rw [dismiss, execute]
    rcases s.world.remove e .disconnect <;> rfl
  rw [heq]
  exact s.preserves_execute trivial

theorem preserves_enter (s : Server) (c : ConnectionId) (name : String) :
    s.Preserves (s.enter c name).2 := by
  rw [enter]
  split
  · exact .refl s
  have hworld : s.Preserves { s with world := (s.world.enter name).2 } :=
    s.preserves_execute (k := .enter name) trivial
  obtain ⟨w₁, -, hissued, -, -, ⟨err, h⟩ | ⟨o, x, g, g', -, -, -, -, hid, h⟩⟩ :=
    s.world.enter_cases name
  · rw [h] at hworld ⊢
    exact hworld
  · rw [h] at hworld ⊢
    have hgiven : (w₁.welcome o g').Issued o.id :=
      ⟨s.world.issued + 1, Nat.succ_pos _, Nat.le_of_eq hissued.symm, hid⟩
    rcases hbind : s.sessions.bind c o.id with err | r
    · simp only [hbind]
      exact hworld.trans (preserves_dismiss _ _)
    · simp only [hbind]
      refine ⟨hworld.issued_le, hworld.sound, hworld.unwarped, fun hs => hs.bind hbind, ?_⟩
      intro _ id hid'
      obtain rfl | hid' := (Registry.controls_bind hbind id).mp hid'
      · exact .inr hgiven
      · exact .inl hid'

theorem preserves_drops {r : Registry} (hr : s.sessions.Drops r c) :
    s.Preserves { s with sessions := r } :=
  preserves_registry (fun hs => hs.drops hr) fun _ => hr.controls

theorem preserves_act (s : Server) (c : ConnectionId) (e : EntityId) (request : Request) :
    s.Preserves (s.act c e request) := by
  cases request with
  | enter name => exact .refl s
  | leave => exact (preserves_drops (s.sessions.drops_unbind c)).trans (preserves_dismiss _ e)
  | walk p => exact s.preserves_execute (k := .walk e p) trivial
  | attack => exact s.preserves_execute (k := .attack e) trivial
  | say text => exact s.preserves_execute (k := .say e text) trivial

/-- Whatever comes to a server preserves what is well about it. -/
theorem preserves_handle (s : Server) (event : Event) : s.Preserves (s.handle event).2 := by
  cases event with
  | connect c => exact preserves_drops (s.sessions.drops_register c)
  | close c =>
    exact preserves_registry (fun hs => hs.close c) fun id => (s.sessions.controls_close c id).mp
  | frame c bytes =>
    rw [handle, handleFrame]
    split
    · exact .refl s
    · exact (s.preserves_enter c _).trans (preserves_flush _)
    · split
      · exact .refl s
      · exact (s.preserves_act c _ _).trans (preserves_flush _)
  | disconnect c =>
    have hdrops := preserves_drops (s.sessions.drops_unregister c)
    rw [handle, disconnect]
    rcases he : (s.sessions.unregister c).1 with _ | e
    · simp only [he]
      exact hdrops
    · simp only [he]
      exact (hdrops.trans (preserves_dismiss _ e)).trans (preserves_flush _)
  | tick => exact (s.preserves_execute (k := .tick) trivial).trans (preserves_flush _)

/-- Whatever happens to a server preserves what is well about it, also if its world is asked
something behind its back. -/
theorem preserves_undergo {incident : Incident} (h : s.Tolerates incident) :
    s.Preserves (s.undergo incident) := by
  cases incident with
  | event event => exact s.preserves_handle event
  | command k => exact s.preserves_execute h

/-- All is well but for clients whose characters do not play. -/
structure Steady (s : Server) : Prop where
  sound : s.world.Sound
  unwarped : s.world.Unwarped
  consistent : s.sessions.Consistent
  issued : ∀ id, s.sessions.Controls id → s.world.Issued id

/-- A server stays steady. -/
theorem Preserves.steady (h : s.Preserves s') (hs : s.Steady)
    (hlt : s'.world.issued < UInt32.size) : s'.Steady where
  sound := h.sound hlt hs.sound
  unwarped := h.unwarped hs.unwarped
  consistent := h.consistent hs.consistent
  issued id hid := by
    obtain hid | hissued := h.controls hs.consistent id hid
    · exact (hs.issued id hid).of_le h.issued_le
    · exact hissued

/-- Whatever happens to a new server, it is steady as long as identities do not come round. -/
theorem steady_of_reaches {config : WorldConfig} {atlas : Atlas}
    (h : Reaches undergo Tolerates (fresh config atlas) s) (hlt : s.world.issued < UInt32.size) :
    s.Steady := by
  refine h.invariant (P := fun v => v.world.issued < UInt32.size → v.Steady) (fun _ => ?_)
    (fun v k hv hk hlt => ?_) hlt
  · exact ⟨sound_empty config atlas, fun _ _ _ hmem => absurd hmem List.not_mem_nil,
      Registry.consistent_empty, fun id hid => absurd hid (Registry.not_controls_empty id)⟩
  · have hpreserves := preserves_undergo hk
    exact hpreserves.steady (hv (Nat.lt_of_le_of_lt hpreserves.issued_le hlt)) hlt

/-! ### Clients that are free and clients that are not -/

/-- How a client that controls nobody is answered when it asks for a character. -/
def welcomeReply (w : World) (name : String) : Message :=
  match (w.enter name).1 with
  | .ok (_, publicId) => enterReply EnterStatus.accepted.code (some publicId)
  | .error _ => enterReply EnterStatus.unknown.code none

/-- A client is connected and controls nobody, and when it asks for a character it gets it, unless
the world turns the character away. -/
structure Free (s : Server) (c : ConnectionId) : Prop where
  connected : s.sessions.sessions[c]?.isSome
  entityOf : s.sessions.entityOf c = none
  answer : ∀ name bytes, Request.decode bytes = .ok (.enter name) →
    ∃ sent, (s.handleFrame c bytes).1 =
      s.sessions.send c (welcomeReply s.world name).bytes ++ sent

/-- A client controls a character that does not play, and when it asks for another one it is told that
it is in the world already. -/
structure Stranded (s : Server) (c : ConnectionId) (e : EntityId) : Prop where
  entityOf : s.sessions.entityOf c = some e
  gone : ¬ s.world.Plays e
  answer : ∀ name bytes, Request.decode bytes = .ok (.enter name) →
    ∃ sent, (s.handleFrame c bytes).1 =
      s.sessions.send c (enterReply EnterStatus.alreadyIn.code none).bytes ++ sent

/-- A client that asks for a character is answered, and then everything goes out that waits. -/
theorem handleFrame_enter {name : String} {bytes : Bytes}
    (h : Request.decode bytes = .ok (.enter name)) :
    (s.handleFrame c bytes).1 =
      (s.enter c name).2.sessions.send c (s.enter c name).1.bytes ++ (s.enter c name).2.flush.1 := by
  rw [handleFrame, h]

/-- Who has a character is told that it is in the world already. -/
theorem enter_of_entityOf (he : s.sessions.entityOf c = some e) (name : String) :
    s.enter c name = (enterReply EnterStatus.alreadyIn.code none, s) := by
  rw [enter, he]
  rfl

/-- Who gets a character can be reached as before. -/
theorem send_bind {r r' : Registry} (h : r.bind c e = .ok r') (frame : Bytes) :
    r'.send c frame = r.send c frame := by
  obtain ⟨-, session, hsession, -, rfl⟩ := Registry.bind_eq_ok_iff.mp h
  simp [Registry.send, Registry.accepts, hsession]

/-- A connected client without a character can have any character that is new. -/
theorem exists_bind (hs : s.Steady) (hconnected : s.sessions.sessions[c]?.isSome)
    (hfree : s.sessions.entityOf c = none) (hnew : ¬ s.world.Issued e) :
    ∃ r, s.sessions.bind c e = .ok r := by
  obtain ⟨session, hsession⟩ := Option.isSome_iff_exists.mp hconnected
  have hnobody : s.sessions.connectionOf e = none :=
    hs.consistent.connectionOf_eq_none_iff.mpr fun hcontrols => hnew (hs.issued e hcontrols)
  have hnone : session.entity = none := by
    rw [Registry.entityOf, hsession] at hfree
    exact hfree
  exact ⟨_, Registry.bind_eq_ok_iff.mpr ⟨hnobody, session, hsession, hnone, rfl⟩⟩

/-- Who controls nobody is answered by the world. -/
theorem enter_of_free (hs : s.Steady) (hconnected : s.sessions.sessions[c]?.isSome)
    (hfree : s.sessions.entityOf c = none) (hlt : s.world.issued + 1 < UInt32.size)
    (name : String) : (s.enter c name).1 = welcomeReply s.world name ∧
      ∀ frame, (s.enter c name).2.sessions.send c frame = s.sessions.send c frame := by
  rw [enter, hfree, welcomeReply]
  simp only [Option.isSome_none, Bool.false_eq_true, if_false]
  obtain ⟨w₁, -, -, -, -, ⟨err, h⟩ | ⟨o, x, g, g', -, -, -, -, hid, h⟩⟩ :=
    s.world.enter_cases name
  · simp only [h]
    exact ⟨trivial, fun frame => trivial⟩
  · have hnew : ¬ s.world.Issued o.id := by
      rw [hid]
      exact not_issued_nth hlt
    obtain ⟨r, hbind⟩ := exists_bind hs hconnected hfree hnew
    simp only [h, hbind]
    exact ⟨trivial, fun frame => send_bind hbind frame⟩

/-- A connected client that controls nobody can get a character. -/
theorem free_of_entityOf (hs : s.Steady) (hconnected : s.sessions.sessions[c]?.isSome)
    (hfree : s.sessions.entityOf c = none) (hlt : s.world.issued + 1 < UInt32.size) : s.Free c where
  connected := hconnected
  entityOf := hfree
  answer name bytes hbytes := by
    obtain ⟨hreply, hsend⟩ := enter_of_free hs hconnected hfree hlt name
    rw [handleFrame_enter hbytes, hreply, hsend]
    exact ⟨_, rfl⟩

/-- A client whose character does not play is told that it is in the world already. -/
theorem stranded_of_entityOf (he : s.sessions.entityOf c = some e) (hgone : ¬ s.world.Plays e) :
    s.Stranded c e where
  entityOf := he
  gone := hgone
  answer name bytes hbytes := by
    rw [handleFrame_enter hbytes, enter_of_entityOf he]
    exact ⟨_, rfl⟩

/-! ### What a server does for its clients -/

theorem isSome_release {r : Registry} (id : EntityId) (h : r.sessions[c]?.isSome) :
    (r.release id).2.sessions[c]?.isSome := by
  rw [Registry.release]
  split
  · exact h
  · rw [Table.getElem?_modify]
    split
    · rwa [Option.isSome_map]
    · exact h

/-- Who is released stays connected. -/
theorem isSome_releaseAll {r : Registry} (ids : List EntityId) (h : r.sessions[c]?.isSome) :
    (ids.foldl (fun r id => (r.release id).2) r).sessions[c]?.isSome := by
  induction ids generalizing r with
  | nil => exact h
  | cons id ids ih => exact ih (isSome_release id h)

end Server

namespace Registry

variable {r : Registry} {c : ConnectionId} {e : EntityId}

theorem entityOf_releaseAll_of_eq_none (h : r.entityOf c = none) (ids : List EntityId) :
    (ids.foldl (fun r id => (r.release id).2) r).entityOf c = none := by
  induction ids generalizing r with
  | nil => exact h
  | cons id ids ih =>
    refine ih ?_
    rw [entityOf_release]
    split
    · rfl
    · exact h

/-- Who is released has no character any more, and others keep theirs. -/
theorem Consistent.entityOf_releaseAll (hr : r.Consistent) (he : r.entityOf c = some e)
    (ids : List EntityId) : (ids.foldl (fun r id => (r.release id).2) r).entityOf c =
      if e ∈ ids then none else some e := by
  induction ids generalizing r with
  | nil => simpa using he
  | cons id ids ih =>
    have hiff : r.connectionOf id = some c ↔ id = e := by
      rw [hr, he, Option.some.injEq, eq_comm]
    have hone : (r.release id).2.entityOf c = if id = e then none else some e := by
      simp only [entityOf_release, he, hiff]
    by_cases hid : id = e
    · rw [if_pos hid] at hone
      rw [List.foldl_cons, entityOf_releaseAll_of_eq_none hone, if_pos (by simp [hid])]
    · rw [if_neg hid] at hone
      rw [List.foldl_cons, ih (hr.release id) hone]
      simp [Ne.symm hid]

end Registry

namespace Server

variable {s : Server} {c : ConnectionId} {e : EntityId} {w : World}

/-- The client of a player that is lost is free after everything has gone out. -/
theorem free_flush (hs : s.Steady) (hc : s.sessions.entityOf c = some e) (hlost : e ∈ s.world.lost)
    (hlt : s.world.issued + 1 < UInt32.size) : s.flush.2.Free c := by
  have hconnected : s.sessions.sessions[c]?.isSome := by
    rw [Registry.entityOf] at hc
    obtain ⟨session, hsession, -⟩ := Option.bind_eq_some_iff.mp hc
    exact Option.isSome_of_eq_some hsession
  have hsteady := s.preserves_flush.steady hs (Nat.lt_of_succ_lt hlt)
  refine free_of_entityOf hsteady (isSome_releaseAll s.world.lost hconnected) ?_ hlt
  exact (hs.consistent.entityOf_releaseAll hc s.world.lost).trans (if_pos hlost)

/-- The client of a player that is gone but is not lost is stranded after everything has gone out. -/
theorem stranded_flush (hs : s.Steady) (hc : s.sessions.entityOf c = some e)
    (hforgets : s.world.Forgets e) : s.flush.2.Stranded c e := by
  refine stranded_of_entityOf ?_ hforgets.1
  exact (hs.consistent.entityOf_releaseAll hc s.world.lost).trans (if_neg hforgets.2)

/-- How a world may part with a player that nobody takes off its map: the player goes elsewhere, or a
tick passes in which no removal of it waits. -/
inductive MayLose (e : EntityId) (w : World) : World → Prop where
  /-- The player goes elsewhere. -/
  | warp (map : MapId) (p : Point) : MayLose e w (w.warp e map p).2
  /-- A tick passes. -/
  | tick (h : ∀ cause, .remove e cause ∉ w.deferred) : MayLose e w w.tick.2

/-- What becomes of the client of a player that does not play any more. If the world has lost the
player in a warp, or in a tick in which no removal of it waited, then its client is free as soon as
everything has gone out. If a removal of it waited for the tick, then its client is stranded. -/
theorem fate_of_reaches {config : WorldConfig} {atlas : Atlas} {s : Server} {c : ConnectionId}
    {e : EntityId} (h : Reaches undergo Tolerates (fresh config atlas) s)
    (hc : s.sessions.entityOf c = some e) (hplays : s.world.Plays e) :
    (∀ w, MayLose e s.world w → ¬ w.Plays e → w.issued + 1 < UInt32.size →
      ({ s with world := w } : Server).flush.2.Free c) ∧
    (∀ cause, .remove e cause ∈ s.world.deferred → e ∉ s.world.lost →
      s.world.tick.2.issued < UInt32.size → s.tick.2.2.Stranded c e) := by
  have htick : s.Preserves { s with world := s.world.tick.2 } :=
    s.preserves_execute (k := .tick) trivial
  refine ⟨fun w hlose hgone hlt => ?_, fun cause hmem hlost hlt => ?_⟩
  · have hlt' := Nat.lt_of_succ_lt hlt
    cases hlose with
    | warp map p =>
      have hwarp : s.Preserves { s with world := (s.world.warp e map p).2 } :=
        s.preserves_execute (k := .warp e map p) trivial
      have hs := steady_of_reaches h (Nat.lt_of_le_of_lt hwarp.issued_le hlt')
      exact free_flush (hwarp.steady hs hlt') hc (lost_of_warp hs.sound hplays hlt' hgone) hlt
    | tick hspares =>
      have hs := steady_of_reaches h (Nat.lt_of_le_of_lt htick.issued_le hlt')
      exact free_flush (htick.steady hs hlt') hc (lost_of_tick hs.sound hplays hspares hlt' hgone) hlt
  · have hs := steady_of_reaches h (Nat.lt_of_le_of_lt htick.issued_le hlt)
    exact stranded_flush (htick.steady hs hlt) hc
      (forgets_tick hs.sound (dooms_of_mem hmem hs.unwarped) hlost hlt)

/-! ### A removal that waits -/

/-- Ann has a client, and is to be removed. -/
def condemned : Server :=
  [.event (.connect (home 1)), .event (.frame (home 1) (entering "Ann")),
    .command (.queueRemoval (.nth 1) .despawn)].foldl undergo (fresh {} hamlet)

theorem reaches_condemned : Reaches undergo Tolerates (fresh {} hamlet) condemned :=
  Reaches.foldl _ _ (by simp [Tolerates, Allows])

theorem entityOf_condemned : condemned.sessions.entityOf (home 1) = some (.nth 1) := by cbv

theorem plays_condemned : condemned.world.Plays (.nth 1) := plays_of_entity? (by cbv)

/-- Ann is gone after the next tick, but her client controls her still, and when it asks for another
character it is told that it is in the world already. -/
theorem refused_in_hamlet :
    Reaches undergo Tolerates (fresh {} hamlet) condemned ∧
      condemned.sessions.entityOf (home 1) = some (.nth 1) ∧
      (condemned.handle .tick).2.world.entity? (.nth 1) = none ∧
      (condemned.handle .tick).2.sessions.entityOf (home 1) = some (.nth 1) ∧
      ((condemned.handle .tick).2.handle (.frame (home 1) (entering "Ann"))).1 =
        [⟨home 1, (enterReply EnterStatus.alreadyIn.code none).bytes⟩] :=
  ⟨reaches_condemned, entityOf_condemned, by cbv, by cbv, by cbv⟩

/-! ### A cave that is full -/

/-- Ann has a client, and the cave is in use. -/
def lodging : Server :=
  [.event (.connect (home 1)), .event (.frame (home 1) (entering "Ann")),
    .command (.activate ⟨2⟩)].foldl undergo (fresh {} ferry)

theorem reaches_lodging : Reaches undergo Tolerates (fresh {} ferry) lodging :=
  Reaches.foldl _ _ (by simp [Tolerates, Allows])

/-- One more item is put down in the cave. -/
def store (s : Server) : Server :=
  (s.undergo (.command .allocate)).undergo
    (.command (.add (.item (.nth (s.world.issued + 1)) 1 ⟨2⟩ ⟨320, 320⟩)))

/-- Ann is on the first map, and there are `n` items in the cave. -/
structure Stocked (n : Nat) (s : Server) : Prop where
  reaches : Reaches undergo Tolerates (fresh {} ferry) s
  client : s.sessions.entityOf (home 1) = some (.nth 1)
  issued : s.world.issued = n + 1
  plays : s.world.Plays (.nth 1)
  mapOf : s.world.mapOf (.nth 1) = some ⟨1⟩
  cave : ∃ g, s.world.region? ⟨2⟩ = some g ∧ g.terrain.contains ⟨320, 320⟩ = true ∧
    g.publicIds = { next := .ofNat n }

theorem stocked_lodging : Stocked 0 lodging where
  reaches := reaches_lodging
  client := by cbv
  issued := by cbv
  plays := plays_of_entity? (by cbv)
  mapOf := by cbv
  cave := by
    have hcave : (lodging.world.region? ⟨2⟩).map (fun g => (g.terrain.contains ⟨320, 320⟩,
        g.publicIds.returned.isEmpty, g.publicIds.next, g.publicIds.limit)) =
        some (true, true, 0, 65535) := by cbv
    obtain ⟨g, hg, hparts⟩ := Option.map_eq_some_iff.mp hcave
    simp only [Prod.mk.injEq, Std.ExtTreeSet.isEmpty_iff] at hparts
    obtain ⟨hinside, hreturned, hnext, hlimit⟩ := hparts
    refine ⟨g, hg, hinside, ?_⟩
    rcases hpool : g.publicIds with ⟨returned, next, limit⟩
    simp only [hpool] at hreturned hnext hlimit
    rw [hreturned, hnext, hlimit]
    rfl

/-- As long as fewer than all numbers are out, there is another one. -/
theorem take_ofNat {n : Nat} (hn : n < 65535) :
    IdPool.take { next := .ofNat n } = some (⟨.ofNat n⟩, { next := .ofNat (n + 1) }) := by
  have hlt : UInt16.ofNat n < PublicId.nobody.val := by
    rw [UInt16.lt_iff_toNat_lt, UInt16.toNat_ofNat']
    exact Nat.lt_of_le_of_lt (Nat.mod_le ..) hn
  simp [IdPool.take, hlt, UInt16.ofNat_add]

/-- When all public ids but that of nobody have been given out, none is left. -/
theorem take_full : IdPool.take { next := .ofNat 65535 } = none := by
  simp [IdPool.take, PublicId.nobody]

/-- There is room for one more item as long as fewer than all numbers are out. -/
theorem Stocked.store {n : Nat} (h : s.Stocked n) (hn : n < 65535) : s.store.Stocked (n + 1) := by
  have hlt : s.world.issued + 1 < UInt32.size := by
    rw [h.issued, UInt32.size]
    omega
  have hs := (steady_of_reaches h.reaches (Nat.lt_of_succ_lt hlt)).sound
  obtain ⟨g, hg, hinside, hpool⟩ := h.cave
  let item : Entity := .item (.nth (s.world.issued + 1)) 1 ⟨2⟩ ⟨320, 320⟩
  have hnew : s.world.mapOf item.id = none := hs.mapOf_nth hlt
  have hfind : g.find? item.id = none := by
    refine Option.eq_none_iff_forall_ne_some.mpr fun e he => ?_
    have hmap := (hs.mapOf_eq_iff hg).mpr ⟨e, he⟩
    rw [hnew] at hmap
    cases hmap
  have htake : g.publicIds.take = some (⟨.ofNat n⟩, { next := .ofNat (n + 1) }) := by
    rw [hpool, take_ofNat hn]
  have hins := Region.insert_eq_ok_iff.mpr ⟨rfl, hfind, hinside, _, htake, rfl⟩
  have hcomes : World.Comes s.world.allocateId.2 item _ g _ := ⟨hnew, hg, hins⟩
  have hstore : s.store = { s with world := s.world.allocateId.2.welcome item _ } :=
    congrArg (fun w => ({ s with world := w } : Server)) (congrArg Prod.snd hcomes.add)
  have hne : (EntityId.nth 1) ≠ item.id := by
    intro heq
    have hone : 1 = s.world.issued + 1 := EntityId.nth_inj (by decide) hlt heq
    rw [h.issued] at hone
    omega
  have hissued : s.world.allocateId.2.Issued item.id :=
    ⟨s.world.issued + 1, Nat.succ_pos _, Nat.le_refl _, rfl⟩
  exact {
    reaches := (h.reaches.step (.command .allocate) trivial).step (.command (.add item))
      ⟨.item .., hissued⟩
    client := h.client
    issued := by
      rw [hstore]
      exact congrArg (· + 1) h.issued
    plays := by
      rw [hstore]
      exact (World.plays_welcome hcomes (.nth 1)).mpr (.inr h.plays)
    mapOf := by
      rw [hstore]
      exact (Table.getElem?_insert ..).trans ((if_neg hne).trans h.mapOf)
    cave := by
      rw [hstore]
      exact ⟨_, (Table.getElem?_insert ..).trans (if_pos rfl), hinside, rfl⟩ }

/-- The cave can be stocked with any number of items, up to one for each public id. -/
theorem exists_stocked {n : Nat} (hn : n ≤ 65535) : ∃ s, Stocked n s := by
  induction n with
  | zero => exact ⟨lodging, stocked_lodging⟩
  | succ n ih =>
    obtain ⟨s, hs⟩ := ih (Nat.le_of_succ_le hn)
    exact ⟨s.store, hs.store hn⟩

/-- There is no number left in the cave, so that Ann would fall out of the world on her way to it. -/
theorem Stocked.not_plays_warp (h : s.Stocked 65535) :
    ¬ (s.world.warp (.nth 1) ⟨2⟩ ⟨320, 320⟩).2.Plays (.nth 1) := by
  obtain ⟨g, hg, hinside, hpool⟩ := h.cave
  have hlt : s.world.issued < UInt32.size := by
    rw [h.issued]
    decide
  have hs := (steady_of_reaches h.reaches hlt).sound
  exact hs.not_plays_warp_of_full h.mapOf (by decide) hg hinside (by rw [hpool, take_full])

/-- If Ann falls out of the world then her client is free, and if she is removed in a tick then it
is stranded. -/
theorem fate_of_ann :
    (∃ s : Server, Reaches undergo Tolerates (fresh {} ferry) s ∧
      s.sessions.entityOf (home 1) = some (.nth 1) ∧ s.world.Plays (.nth 1) ∧
      ∃ w, MayLose (.nth 1) s.world w ∧ ¬ w.Plays (.nth 1) ∧ w.issued + 1 < UInt32.size ∧
        ({ s with world := w } : Server).flush.2.Free (home 1)) ∧
    (.remove (.nth 1) .despawn ∈ condemned.world.deferred ∧ .nth 1 ∉ condemned.world.lost ∧
      condemned.world.tick.2.issued < UInt32.size ∧
      condemned.tick.2.2.Stranded (home 1) (.nth 1)) := by
  obtain ⟨s, hs⟩ := exists_stocked (Nat.le_refl 65535)
  have hlose : MayLose (.nth 1) s.world (s.world.warp (.nth 1) ⟨2⟩ ⟨320, 320⟩).2 := .warp _ _
  have hlt : (s.world.warp (.nth 1) ⟨2⟩ ⟨320, 320⟩).2.issued + 1 < UInt32.size := by
    rw [issued_warp, hs.issued]
    decide
  have hfree := (fate_of_reaches hs.reaches hs.client hs.plays).1 _ hlose hs.not_plays_warp hlt
  have hdeferred : condemned.world.deferred = [.remove (.nth 1) .despawn] := by cbv
  have hlost : condemned.world.lost = [] := by cbv
  have hissued : condemned.world.tick.2.issued = 1 := by cbv
  have hmem : .remove (.nth 1) .despawn ∈ condemned.world.deferred := by simp [hdeferred]
  have hnotLost : .nth 1 ∉ condemned.world.lost := by simp [hlost]
  have hlt' : condemned.world.tick.2.issued < UInt32.size := by
    rw [hissued]
    decide
  have hstranded := (fate_of_reaches reaches_condemned entityOf_condemned plays_condemned).2
    _ hmem hnotLost hlt'
  exact ⟨⟨s, hs.reaches, hs.client, hs.plays, _, hlose, hs.not_plays_warp, hlt, hfree⟩,
    hmem, hnotLost, hlt', hstranded⟩

end Server

end TileWorld
