import TileWorld.Proofs.Server.Release
import TileWorld.Proofs.Session.Routing

/-!
# What goes out, and to whom

Whatever comes to a server, the server first does what there is to do and then sends everything out,
or it has nothing to do at all (`Server.handle_of_poised`, `Server.handle_of_poised_eq_none`). So
nothing is left waiting between one event and the next, and everything goes to the client that
controls the recipient at that moment, which is never one that has parted from it
(`Server.routed_of_becomes`).
-/

namespace TileWorld

open World

namespace Server

variable {s s' s'' : Server} {c : ConnectionId} {e : EntityId} {event : Event}

/-! ### Before everything goes out -/

/-- The server when it has done what there is to do and is about to send everything out, if it comes
to that. -/
def poised (s : Server) : Event → Option Server
  | .connect _ => none
  | .close _ => none
  | .frame c bytes =>
    match Request.decode bytes with
    | .error _ => none
    | .ok (.enter name) => some (s.enter c name).2
    | .ok request => (s.sessions.entityOf c).map fun e => s.act c e request
  | .disconnect c =>
    (s.sessions.entityOf c).map fun e =>
      { s with sessions := (s.sessions.unregister c).2 }.dismiss e
  | .tick => some { s with world := s.world.tick.2 }

/-- What a client that asks for a character is told at once. -/
def answer (s : Server) : Event → List SentFrame
  | .frame c bytes =>
    match Request.decode bytes with
    | .ok (.enter name) => (s.enter c name).2.sessions.send c (s.enter c name).1.bytes
    | _ => []
  | _ => []

/-- What a server sends in an event is the answer and then what waits to go out. -/
theorem handle_of_poised (h : s.poised event = some s') :
    s.handle event = (s.answer event ++ s'.flush.1, s'.flush.2) := by
  cases event with
  | connect c => cases h
  | close c => cases h
  | frame c bytes =>
    rw [poised] at h
    rw [handle, handleFrame, answer]
    split at h
    · cases h
    · cases h
      simp only [*]
    · rename_i request hne _
      obtain ⟨e, he, rfl⟩ := Option.map_eq_some_iff.mp h
      simp only [*]
      cases request with
      | enter name => exact absurd rfl (hne name)
      | _ => rfl
  | disconnect c =>
    obtain ⟨e, he, rfl⟩ := Option.map_eq_some_iff.mp h
    have heq : (s.sessions.unregister c).1 = some e := he
    simp only [handle, disconnect, heq, answer, List.nil_append]
  | tick =>
    cases h
    rfl

/-- When it does not come to that, nothing goes out, the world is as it was, and no client gets a
character. -/
theorem handle_of_poised_eq_none (h : s.poised event = none) :
    ∃ r, s.handle event = ([], { s with sessions := r }) ∧
      ∀ c e, r.entityOf c = some e → s.sessions.entityOf c = some e := by
  cases event with
  | connect c => exact ⟨_, rfl, fun c' e he => (s.sessions.drops_register c).entityOf_eq_some he⟩
  | close c =>
    refine ⟨s.sessions.close c, rfl, fun c' e he => ?_⟩
    rwa [Registry.entityOf_close] at he
  | frame c bytes =>
    refine ⟨s.sessions, ?_, fun _ _ => id⟩
    rw [poised] at h
    rw [handle, handleFrame]
    split at h
    · simp only [*]
    · cases h
    · have he := Option.map_eq_none_iff.mp h
      simp only [*]
  | disconnect c =>
    have heq : (s.sessions.unregister c).1 = none := Option.map_eq_none_iff.mp h
    refine ⟨(s.sessions.unregister c).2, ?_, fun c' e he =>
      (s.sessions.drops_unregister c).entityOf_eq_some he⟩
    simp only [handle, disconnect, heq]
  | tick => cases h

/-- What a server has done before it sends everything out: a client has asked for a character, or the
character of a client has acted or has been left behind by it, or a tick has passed. -/
theorem poised_cases (h : s.poised event = some s') :
    (∃ c name, s' = (s.enter c name).2) ∨
    (∃ c e request, s.sessions.entityOf c = some e ∧ s' = s.act c e request) ∨
    (∃ c e, s.sessions.entityOf c = some e ∧
      s' = { s with sessions := (s.sessions.unregister c).2 }.dismiss e) ∨
    s' = { s with world := s.world.tick.2 } := by
  cases event with
  | connect c => cases h
  | close c => cases h
  | frame c bytes =>
    rw [poised] at h
    split at h
    · cases h
    · cases h
      exact .inl ⟨c, _, rfl⟩
    · obtain ⟨e, he, rfl⟩ := Option.map_eq_some_iff.mp h
      exact .inr (.inl ⟨c, e, _, he, rfl⟩)
  | disconnect c =>
    obtain ⟨e, he, rfl⟩ := Option.map_eq_some_iff.mp h
    exact .inr (.inr (.inl ⟨c, e, he, rfl⟩))
  | tick =>
    cases h
    exact .inr (.inr (.inr rfl))

theorem leads_poised (h : s.poised event = some s') : s.Leads s' := by
  obtain ⟨c, name, rfl⟩ | ⟨c, e, request, he, rfl⟩ | ⟨c, e, he, rfl⟩ | rfl := poised_cases h
  · exact s.leads_enter c name
  · exact leads_act he request
  · exact leads_dismiss (s.sessions.drops_unregister c) he
  · exact s.leads_tick

/-! ### Nothing is left waiting -/

/-- Nothing waits to go out, and nobody is lost. -/
structure Settled (s : Server) : Prop where
  outbox : s.world.outbox = []
  lost : s.world.lost = []

/-- Once everything has gone out nothing waits. -/
theorem settled_flush (s : Server) : s.flush.2.Settled := ⟨rfl, rfl⟩

/-- Between two events nothing waits to go out. -/
theorem Settled.handle (hs : s.Settled) (event : Event) : (s.handle event).2.Settled := by
  rcases h : s.poised event with _ | s'
  · obtain ⟨r, heq, -⟩ := handle_of_poised_eq_none h
    rw [heq]
    exact ⟨hs.outbox, hs.lost⟩
  · rw [handle_of_poised h]
    exact s'.settled_flush

/-- A server in which nothing waits to go out is so again after each event. -/
theorem Settled.becomes (hs : s.Settled) (h : s.Becomes s') : s'.Settled :=
  h.invariant hs fun _ event hv _ => hv.handle event

/-! ### Who gets what -/

/-- What goes out is the queue, to those who control somebody when the lost are released. -/
theorem fst_flush (s : Server) :
    s.flush.1 = s.releaseLost.sessions.deliver s.world.outbox := rfl

theorem consistent_releaseLost (hs : s.sessions.Consistent) : s.releaseLost.sessions.Consistent :=
  (hs.releaseAll s.world.lost).1

/-- Whoever controls a character and can be reached gets all messages for the character, in their
order, and nothing else. -/
theorem framesTo_flush (hs : s.sessions.Consistent)
    (he : s.releaseLost.sessions.entityOf c = some e)
    (hopen : s.releaseLost.sessions.accepts c = true) :
    framesTo c s.flush.1 = (s.world.messagesFor e).map Message.bytes := by
  have hiff (d : Delivery) : (some e = some d.recipient) = (d.recipient = e) := by
    rw [Option.some.injEq, @eq_comm _ e]
  rw [fst_flush, (consistent_releaseLost hs).framesTo_deliver, if_pos hopen, he, messagesFor,
    List.map_map]
  simp only [hiff]
  rfl

/-- Whoever controls nobody, or cannot be reached, gets nothing. -/
theorem framesTo_flush_eq_nil (hs : s.sessions.Consistent)
    (h : s.releaseLost.sessions.entityOf c = none ∨ s.releaseLost.sessions.accepts c = false) :
    framesTo c s.flush.1 = [] := by
  rw [fst_flush, (consistent_releaseLost hs).framesTo_deliver]
  rcases h with h | h <;> simp [h]

/-! ### Characters from which a client has parted -/

/-- Clients get characters only under identities that had not been given out. -/
def OnlyFresh (s s' : Server) : Prop :=
  ∀ c e, s'.sessions.entityOf c = some e → s.sessions.entityOf c = some e ∨ ¬ s.world.Issued e

theorem OnlyFresh.refl (s : Server) : s.OnlyFresh s := fun _ _ h => .inl h

theorem OnlyFresh.trans (h : s.OnlyFresh s') (hle : s.world.issued ≤ s'.world.issued)
    (h' : s'.OnlyFresh s'') : s.OnlyFresh s'' := by
  intro c e he
  obtain he | hnew := h' c e he
  · exact h c e he
  · exact .inr fun hissued => hnew (hissued.of_le hle)

theorem onlyFresh_drops {r : Registry} (hr : s.sessions.Drops r c) (w : World) :
    s.OnlyFresh { world := w, sessions := r } :=
  fun _ _ he => .inl (hr.entityOf_eq_some he)

/-- Whoever enters gets an identity that is new. -/
theorem onlyFresh_enter (s : Server) (c : ConnectionId) (name : String)
    (hlt : (s.enter c name).2.world.issued < UInt32.size) : s.OnlyFresh (s.enter c name).2 := by
  rw [enter] at hlt ⊢
  split
  · exact .refl s
  rename_i hfree
  rw [if_neg hfree] at hlt
  obtain ⟨w₁, -, hissued, -, -, ⟨err, h⟩ | ⟨o, x, g, g', -, -, -, -, hid, h⟩⟩ :=
    s.world.enter_cases name
  · rw [h]
    exact fun c e he => .inl he
  · rw [h] at hlt ⊢
    rcases hbind : s.sessions.bind c o.id with err | r
    · simp only [hbind]
      exact fun c e he => .inl he
    · simp only [hbind] at hlt ⊢
      have hlt' : w₁.issued < UInt32.size := hlt
      intro c' e he
      have he : r.entityOf c' = some e := he
      rw [Registry.entityOf_bind hbind] at he
      split at he
      · rw [← Option.some.inj he, hid]
        exact .inr (not_issued_nth (hissued ▸ hlt'))
      · exact .inl he

theorem onlyFresh_act (s : Server) (c : ConnectionId) (e : EntityId) (request : Request) :
    s.OnlyFresh (s.act c e request) := by
  cases request with
  | leave => exact onlyFresh_drops (s.sessions.drops_unbind c) _
  | _ => exact fun c e he => .inl he

theorem onlyFresh_poised (h : s.poised event = some s') (hlt : s'.world.issued < UInt32.size) :
    s.OnlyFresh s' := by
  obtain ⟨c, name, rfl⟩ | ⟨c, e, request, -, rfl⟩ | ⟨c, e, -, rfl⟩ | rfl := poised_cases h
  · exact s.onlyFresh_enter c name hlt
  · exact s.onlyFresh_act c e request
  · exact onlyFresh_drops (s.sessions.drops_unregister c) _
  · exact fun c e he => .inl he

theorem onlyFresh_releaseLost (s : Server) : s.OnlyFresh s.releaseLost :=
  fun _ _ he => .inl (Registry.entityOf_of_releaseAll he)

/-- In an event clients get characters only under new identities. -/
theorem onlyFresh_handle (s : Server) (event : Event)
    (hlt : (s.handle event).2.world.issued < UInt32.size) : s.OnlyFresh (s.handle event).2 := by
  rcases h : s.poised event with _ | s'
  · obtain ⟨r, heq, hr⟩ := handle_of_poised_eq_none h
    rw [heq]
    exact fun c e he => .inl (hr c e he)
  · rw [handle_of_poised h] at hlt ⊢
    exact (onlyFresh_poised h hlt).trans (leads_poised h).issued_le s'.onlyFresh_releaseLost

/-- A client does not control the character, and no character that is new can be it. -/
def PartedFrom (s : Server) (c : ConnectionId) (e : EntityId) : Prop :=
  s.world.Issued e ∧ s.sessions.entityOf c ≠ some e

/-- A client that has lost its character does not get it back when only new ones are given out. -/
theorem PartedFrom.of_onlyFresh (hs : s.PartedFrom c e) (h : s.OnlyFresh s')
    (hle : s.world.issued ≤ s'.world.issued) : s'.PartedFrom c e := by
  refine ⟨hs.1.of_le hle, fun he => ?_⟩
  obtain he | hnew := h c e he
  · exact hs.2 he
  · exact hnew hs.1

/-- Who has parted from a character does not control it again. -/
theorem PartedFrom.becomes (hs : s.PartedFrom c e) (h : s.Becomes s')
    (hlt : s'.world.issued < UInt32.size) : s'.PartedFrom c e := by
  refine h.invariant (P := fun v => v.world.issued < UInt32.size → v.PartedFrom c e) (fun _ => hs)
    (fun v event hv _ hlt => ?_) hlt
  have hle := (v.preserves_handle event).issued_le
  exact (hv (Nat.lt_of_le_of_lt hle hlt)).of_onlyFresh (v.onlyFresh_handle event hlt) hle

theorem issued_le_becomes (h : s.Becomes s') : s.world.issued ≤ s'.world.issued :=
  h.invariant (P := fun v => s.world.issued ≤ v.world.issued) (Nat.le_refl _)
    fun v event hle _ => Nat.le_trans hle (v.preserves_handle event).issued_le

/-- Characters that clients control have identities that were given out. -/
theorem issued_of_becomes {w₀ : World} (h : Becomes { world := w₀ } s)
    (he : s.sessions.entityOf c = some e) : s.world.Issued e := by
  have hall : s.sessions.Consistent ∧ ∀ id, s.sessions.Controls id → s.world.Issued id := by
    refine h.invariant
      (P := fun v => v.sessions.Consistent ∧ ∀ id, v.sessions.Controls id → v.world.Issued id)
      ⟨Registry.consistent_empty, fun id hid => absurd hid (Registry.not_controls_empty id)⟩ ?_
    intro v event ⟨hconsistent, hissued⟩ _
    have hpreserves := v.preserves_handle event
    refine ⟨hpreserves.consistent hconsistent, fun id hid => ?_⟩
    obtain hid | hnew := hpreserves.controls hconsistent id hid
    · exact (hissued id hid).of_le hpreserves.issued_le
    · exact hnew
  exact hall.2 e ⟨c, he⟩

/-! ### Everything that goes out -/

/-- What is queued when a server is about to send everything out goes out, once the lost are released:
whoever controls a character and can be reached gets the messages for it in their order, everybody
else gets nothing, and nobody gets a message for somebody else. -/
structure Routes (s : Server) : Prop where
  /-- Whoever controls a character and can be reached gets what is queued for it. -/
  controlled : ∀ c e, s.releaseLost.sessions.entityOf c = some e →
    s.releaseLost.sessions.accepts c = true →
      framesTo c s.flush.1 = (s.world.messagesFor e).map Message.bytes
  /-- Whoever controls nobody gets nothing. -/
  free : ∀ c, s.releaseLost.sessions.entityOf c = none → framesTo c s.flush.1 = []
  /-- Nothing goes out through a channel that is closed. -/
  closed : ∀ c, s.releaseLost.sessions.accepts c = false → framesTo c s.flush.1 = []
  /-- Every frame is a message for the character of the client that gets it. -/
  own : ∀ f ∈ s.flush.1, ∃ d ∈ s.world.outbox,
    s.releaseLost.sessions.entityOf f.connection = some d.recipient ∧ f.frame = d.message.bytes
  /-- The frames that go out are counted. -/
  counted : s.releaseLost.sessions.route s.world.outbox = (s.flush.1.length, s.flush.1)

/-- With a consistent registry, everything that waits goes to whom it is for. -/
theorem routes_of_consistent (hs : s.sessions.Consistent) : s.Routes where
  controlled _ _ he hopen := framesTo_flush hs he hopen
  free _ h := framesTo_flush_eq_nil hs (.inl h)
  closed _ h := framesTo_flush_eq_nil hs (.inr h)
  own _ hf := (consistent_releaseLost hs).exists_of_mem_deliver hf
  counted := Registry.route_eq ..

/-- Between one event and the next nothing waits to go out and nobody is lost. Whatever comes to a
server, what the server then has to say goes out at once and goes to the right clients; and a client
that has parted from a character never again gets a message for it. -/
theorem routed_of_becomes {w₀ : World} {s : Server} (houtbox : w₀.outbox = [])
    (hlost : w₀.lost = []) (h : Becomes { world := w₀ } s) :
    (s.world.outbox = [] ∧ s.world.lost = []) ∧
    (∀ event, s.Admits event →
      ((s.handle event).2.world.outbox = [] ∧ (s.handle event).2.world.lost = []) ∧
      (s.poised event = none → (s.handle event).1 = []) ∧
      ∀ s', s.poised event = some s' →
        s.handle event = (s.answer event ++ s'.flush.1, s'.flush.2) ∧ s'.Routes) ∧
    ∀ c e, s.sessions.entityOf c = some e → ∀ s₁ s₂ event s', s.Becomes s₁ →
      s₁.sessions.entityOf c ≠ some e → s₁.Becomes s₂ → s₂.poised event = some s' →
      s'.world.issued < UInt32.size → ∀ f ∈ s'.flush.1, f.connection = c →
        ∃ d ∈ s'.world.outbox, d.recipient ≠ e ∧ f.frame = d.message.bytes := by
  have hsettled : s.Settled := Settled.becomes ⟨houtbox, hlost⟩ h
  refine ⟨⟨hsettled.outbox, hsettled.lost⟩, fun event _ => ⟨?_, ?_, ?_⟩, ?_⟩
  · exact ⟨(hsettled.handle event).outbox, (hsettled.handle event).lost⟩
  · intro hnone
    obtain ⟨r, heq, -⟩ := handle_of_poised_eq_none hnone
    rw [heq]
  · intro s' hs'
    have hconsistent := (leads_poised hs').consistent (consistent_of_becomes h)
    exact ⟨handle_of_poised hs', routes_of_consistent hconsistent⟩
  · rintro c e he s₁ s₂ event s' h₁ hparted h₂ hs' hlt f hf rfl
    have hle := (leads_poised hs').issued_le
    have hissued₁ : s₁.world.Issued e := (issued_of_becomes h he).of_le (issued_le_becomes h₁)
    have hparted₂ : s₂.PartedFrom f.connection e :=
      PartedFrom.becomes ⟨hissued₁, hparted⟩ h₂ (Nat.lt_of_le_of_lt hle hlt)
    have hparted' := (hparted₂.of_onlyFresh (onlyFresh_poised hs' hlt) hle).of_onlyFresh
      s'.onlyFresh_releaseLost (Nat.le_refl _)
    have hconsistent := (leads_poised hs').consistent (consistent_of_becomes ((h.trans h₁).trans h₂))
    obtain ⟨d, hd, hcontrols, hframe⟩ := (routes_of_consistent hconsistent).own f hf
    refine ⟨d, hd, ?_, hframe⟩
    rintro rfl
    exact hparted'.2 hcontrols

/-! ### An example -/

/-- The frame in which a client asks for something. -/
def asking (request : Request) : Bytes := (request.encode.toOption.map Message.bytes).getD []

/-- The visitor has given its character up. -/
def farewell : Server := (visit.handle (.frame (home 1) (asking .leave))).2

/-- The visitor has come back as somebody else. -/
def comeback : Server := (farewell.handle (.frame (home 1) (asking (.enter "Ann")))).2

/-- A tick has something to say to the visitor who has come back, and nothing to whom it was before.
-/
theorem routed_at_comeback :
    visit.sessions.entityOf (home 1) = some (.nth 1) ∧
    comeback.sessions.entityOf (home 1) = some (.nth 3) ∧
    ∃ s, comeback.poised .tick = some s ∧ (∃ f ∈ s.flush.1, f.connection = home 1) ∧
      ∀ f ∈ s.flush.1, f.connection = home 1 →
        ∃ d ∈ s.world.outbox, d.recipient ≠ .nth 1 ∧ f.frame = d.message.bytes := by
  have hrun : (visit.sessions.entityOf (home 1), farewell.sessions.entityOf (home 1),
      comeback.sessions.entityOf (home 1), comeback.world.tick.2.issued,
      ({ comeback with world := comeback.world.tick.2 } : Server).flush.1.map SentFrame.connection) =
        (some (.nth 1), none, some (.nth 3), 3, [home 1, home 1]) := by cbv
  simp only [Prod.mk.injEq] at hrun
  obtain ⟨hann, hleft, hback, hissued, hsent⟩ := hrun
  have hbecomes : visit.Becomes farewell := Reaches.refl.step _ trivial
  have hbecomes' : farewell.Becomes comeback := Reaches.refl.step _ trivial
  obtain ⟨-, -, hparted⟩ := routed_of_becomes rfl rfl becomes_visit
  have hlt : comeback.world.tick.2.issued < UInt32.size := by rw [hissued]; decide
  refine ⟨hann, hback, _, rfl, ?_, hparted _ _ hann _ _ .tick _ hbecomes (by simp [hleft]) hbecomes'
    rfl hlt⟩
  exact List.mem_map.mp (hsent ▸ List.mem_cons_self)

end Server

end TileWorld
