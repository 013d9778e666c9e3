import TileWorld.Proofs.Server.Routing

/-!
# What a server asks of its world

Whatever comes to a server, its world changes only by what the server asks of it, but for the queue
and the list of the lost, which are taken away in the end (`Server.exists_commands`). So what
outlives everything that a server asks outlives whatever comes to it (`Server.keeps_handle`).
-/

namespace TileWorld

open World

namespace Server

variable {s s' : Server} {event : Event}

/-- What a server may ask of its world when something comes to it. -/
inductive MayAsk : Event → Command → Prop where
  /-- A client asks for a character by its name. -/
  | enter {c : ConnectionId} {bytes : Bytes} {name : String}
    (h : Request.decode bytes = .ok (.enter name)) : MayAsk (.frame c bytes) (.enter name)
  /-- A client lets its character walk. -/
  | walk {c : ConnectionId} {bytes : Bytes} {p : Point}
    (h : Request.decode bytes = .ok (.walk p)) (e : EntityId) : MayAsk (.frame c bytes) (.walk e p)
  /-- A client lets its character attack. -/
  | attack {c : ConnectionId} {bytes : Bytes} (h : Request.decode bytes = .ok .attack)
    (e : EntityId) : MayAsk (.frame c bytes) (.attack e)
  /-- A client lets its character speak. -/
  | say {c : ConnectionId} {bytes : Bytes} {text : String}
    (h : Request.decode bytes = .ok (.say text)) (e : EntityId) :
    MayAsk (.frame c bytes) (.say e text)
  /-- Nobody controls a character any more, or nobody could. -/
  | dismiss (event : Event) (e : EntityId) : MayAsk event (.remove e .disconnect)
  /-- A tick passes. -/
  | tick : MayAsk .tick .tick

theorem world_dismiss (s : Server) (e : EntityId) :
    (s.dismiss e).world = s.world.execute (.remove e .disconnect) := by
  rw [dismiss, execute]
  rcases s.world.remove e .disconnect with _ | ⟨gone, w⟩ <;> rfl

/-- A character enters, or nothing is asked; a character that its client cannot control leaves again. -/
theorem world_enter (s : Server) (c : ConnectionId) (name : String) :
    (s.enter c name).2.world = s.world ∨
      (s.enter c name).2.world = s.world.execute (.enter name) ∨
      ∃ e, (s.enter c name).2.world =
        (s.world.execute (.enter name)).execute (.remove e .disconnect) := by
  have hworld : s.world.execute (.enter name) = (s.world.enter name).2 := rfl
  rw [enter, hworld]
  split
  · exact .inl rfl
  · rcases s.world.enter name with ⟨err | ⟨e, x⟩, w⟩
    · exact .inr (.inl rfl)
    · rcases hbind : s.sessions.bind c e with err | r
      · exact .inr (.inr ⟨e, by simp only [hbind, world_dismiss]⟩)
      · exact .inr (.inl (by simp only [hbind]))

/-- What a client asks of the world for its character. -/
theorem world_act (s : Server) (c : ConnectionId) (e : EntityId) {request : Request}
    {bytes : Bytes} (h : Request.decode bytes = .ok request) :
    (s.act c e request).world = s.world ∨
      ∃ k, MayAsk (.frame c bytes) k ∧ (s.act c e request).world = s.world.execute k := by
  cases request with
  | enter name => exact .inl rfl
  | leave => exact .inr ⟨_, .dismiss _ e, world_dismiss _ e⟩
  | walk p => exact .inr ⟨_, .walk h e, rfl⟩
  | attack => exact .inr ⟨_, .attack h e, rfl⟩
  | say text => exact .inr ⟨_, .say h e, rfl⟩

/-- Before everything goes out, a server has asked at most two things of its world. -/
theorem world_poised (h : s.poised event = some s') :
    ∃ ks : List Command, (∀ k ∈ ks, MayAsk event k) ∧ s'.world = ks.foldl execute s.world := by
  have hone {k : Command} (hk : MayAsk event k) (hworld : s'.world = s.world.execute k) :
      ∃ ks : List Command, (∀ k ∈ ks, MayAsk event k) ∧ s'.world = ks.foldl execute s.world :=
    ⟨[k], by simpa using hk, hworld⟩
  cases event with
  | connect c => cases h
  | close c => cases h
  | frame c bytes =>
    rw [poised] at h
    split at h
    · cases h
    · rename_i name hname
      cases h
      obtain heq | heq | ⟨e, heq⟩ := s.world_enter c name
      · exact ⟨[], by simp, heq⟩
      · exact hone (.enter hname) heq
      · exact ⟨[.enter name, .remove e .disconnect],
          by simpa using ⟨.enter hname, .dismiss _ e⟩, heq⟩
    · rename_i request _ hrequest
      obtain ⟨e, -, rfl⟩ := Option.map_eq_some_iff.mp h
      obtain heq | ⟨k, hk, heq⟩ := s.world_act c e hrequest
      · exact ⟨[], by simp, heq⟩
      · exact hone hk heq
  | disconnect c =>
    obtain ⟨e, -, rfl⟩ := Option.map_eq_some_iff.mp h
    exact hone (.dismiss _ e) (world_dismiss _ e)
  | tick =>
    cases h
    exact hone .tick rfl

/-- What comes to a server changes its world only by what the server asks of it, and what waited to be
told is taken away. -/
theorem exists_commands (s : Server) (event : Event) :
    ∃ (ks : List Command) (lost : List EntityId) (outbox : List Delivery),
      (∀ k ∈ ks, MayAsk event k) ∧
      (s.handle event).2.world = { ks.foldl execute s.world with lost, outbox } := by
  rcases h : s.poised event with _ | s'
  · obtain ⟨r, heq, -⟩ := handle_of_poised_eq_none h
    exact ⟨[], s.world.lost, s.world.outbox, by simp, by rw [heq]; rfl⟩
  · obtain ⟨ks, hks, hworld⟩ := world_poised h
    exact ⟨ks, [], [], hks, by rw [handle_of_poised h, ← hworld]; rfl⟩

/-- What outlives everything that a server asks of its world, and has nothing to do with what waits to
be told, outlives whatever comes to the server. -/
theorem keeps_handle {P : World → Prop} (hP : ∀ w k, MayAsk event k → P w → P (w.execute k))
    (htaken : ∀ {w : World} lost outbox, P w → P { w with lost, outbox }) (hs : P s.world) :
    P (s.handle event).2.world := by
  obtain ⟨ks, lost, outbox, hks, heq⟩ := s.exists_commands event
  rw [heq]
  clear heq
  refine htaken lost outbox ?_
  generalize s.world = w at hs
  induction ks generalizing w with
  | nil => exact hs
  | cons k ks ih =>
    exact ih (fun k' hk' => hks k' (List.mem_cons_of_mem k hk')) (w.execute k)
      (hP w k (hks k List.mem_cons_self) hs)

end Server

end TileWorld
