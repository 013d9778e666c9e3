import TileWorld.Proofs.Session.Consistency

/-!
# Where messages go

A registry sends every message to the client of its recipient. In a consistent registry a client
whose channel is open gets exactly the messages for its character, in their order
(`Registry.Consistent.framesTo_deliver`). To go through the messages one by one and to count those
that go out comes to the same (`Registry.route_eq`).
-/

namespace TileWorld

/-- The frames that went out to one client, in their order. -/
def framesTo (c : ConnectionId) (sent : List SentFrame) : List Bytes :=
  (sent.filter fun f => f.connection = c).map SentFrame.frame

@[simp] theorem framesTo_append (c : ConnectionId) (sent sent' : List SentFrame) :
    framesTo c (sent ++ sent') = framesTo c sent ++ framesTo c sent' := by
  rw [framesTo, List.filter_append, List.map_append]
  rfl

namespace Registry

variable {r : Registry} {c : ConnectionId} {e : EntityId}

/-- A frame goes to the client that it is for, if the client can be reached. -/
theorem framesTo_send (r : Registry) (c c' : ConnectionId) (frame : Bytes) :
    framesTo c (r.send c' frame) = if c' = c ∧ r.accepts c = true then [frame] else [] := by
  rw [send]
  by_cases hc : c' = c
  · subst hc
    cases h : r.accepts c' <;> simp [framesTo]
  · cases h : r.accepts c' <;> simp [framesTo, hc]

theorem deliver_cons (r : Registry) (d : Delivery) (ds : List Delivery) :
    r.deliver (d :: ds) =
      ((r.connectionOf d.recipient).elim [] fun c => r.send c d.message.bytes) ++ r.deliver ds :=
  rfl

/-- What goes out for one message goes to the client of its recipient. -/
theorem Consistent.framesTo_elim (hr : r.Consistent) (c : ConnectionId) (d : Delivery) :
    framesTo c ((r.connectionOf d.recipient).elim [] fun c' => r.send c' d.message.bytes) =
      if r.entityOf c = some d.recipient ∧ r.accepts c = true then [d.message.bytes] else [] := by
  simp only [← hr c d.recipient]
  rcases r.connectionOf d.recipient with _ | c'
  · simp [framesTo]
  · simp only [Option.elim, framesTo_send, Option.some.injEq]

/-- A client gets the messages for its character, if it has one and its channel is open. -/
theorem Consistent.framesTo_deliver (hr : r.Consistent) (c : ConnectionId) (ds : List Delivery) :
    framesTo c (r.deliver ds) = if r.accepts c = true then
      (ds.filter fun d => r.entityOf c = some d.recipient).map fun d => d.message.bytes else [] := by
  induction ds with
  | nil => simp [deliver, framesTo]
  | cons d ds ih =>
    rw [deliver_cons, framesTo_append, hr.framesTo_elim, ih]
    by_cases he : r.entityOf c = some d.recipient <;> cases r.accepts c <;> simp [he]

/-- Every frame that goes out is a message for the character of the client that gets it. -/
theorem Consistent.exists_of_mem_deliver (hr : r.Consistent) {ds : List Delivery} {f : SentFrame}
    (h : f ∈ r.deliver ds) :
    ∃ d ∈ ds, r.entityOf f.connection = some d.recipient ∧ f.frame = d.message.bytes := by
  obtain ⟨d, hd, hf⟩ := List.mem_flatMap.mp h
  refine ⟨d, hd, ?_⟩
  rcases hc : r.connectionOf d.recipient with _ | c
  · simp [hc] at hf
  · rw [hc, Option.elim, send] at hf
    split at hf
    · rw [List.mem_singleton.mp hf]
      exact ⟨(hr c d.recipient).mp hc, rfl⟩
    · cases hf

/-! ### Clients that lose their characters -/

/-- Dropping a character gives nobody one. -/
theorem Drops.entityOf_eq_some {r' : Registry} {c' : ConnectionId} (h : r.Drops r' c)
    (he : r'.entityOf c' = some e) : r.entityOf c' = some e := by
  rw [h.entityOf] at he
  split at he
  · cases he
  · exact he

theorem entityOf_of_releaseAll {ids : List EntityId}
    (h : (ids.foldl (fun r id => (r.release id).2) r).entityOf c = some e) :
    r.entityOf c = some e := by
  induction ids generalizing r with
  | nil => exact h
  | cons id ids ih =>
    have hone := ih h
    rw [entityOf_release] at hone
    split at hone
    · cases hone
    · exact hone

/-! ### One by one -/

/-- Sends one message, if there is a client for it that accepts it, and counts it then. -/
def routeOne (r : Registry) (s : Nat × List SentFrame) (d : Delivery) : Nat × List SentFrame :=
  match r.connectionOf d.recipient with
  | none => s
  | some c => if r.accepts c then (s.1 + 1, s.2 ++ [⟨c, d.message.bytes⟩]) else s

/-- Sends messages one by one; gives how many have gone out, and the frames. -/
def route (r : Registry) (ds : List Delivery) : Nat × List SentFrame := ds.foldl r.routeOne (0, [])

/-- Messages are routed one by one, and counted. -/
theorem foldl_routeOne (r : Registry) (ds : List Delivery) (s : Nat × List SentFrame) :
    ds.foldl r.routeOne s = (s.1 + (r.deliver ds).length, s.2 ++ r.deliver ds) := by
  induction ds generalizing s with
  | nil => simp [deliver]
  | cons d ds ih =>
    rw [List.foldl_cons, ih, routeOne, deliver_cons]
    rcases r.connectionOf d.recipient with _ | c
    · simp
    · cases h : r.accepts c
      · simp [send, h]
      · simp [send, h]
        omega

/-- One by one the same frames go out, and they are counted. -/
theorem route_eq (r : Registry) (ds : List Delivery) :
    r.route ds = ((r.deliver ds).length, r.deliver ds) := by
  simp [route, foldl_routeOne]

end Registry

end TileWorld
