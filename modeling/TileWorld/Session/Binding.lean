import TileWorld.Reach
import TileWorld.Session.Registry

/-!
# Who controls whom

What each change of a registry does to the two views of it: the character of a client and the
client of a character. The changes are also given as data, so that one can speak of all that may
happen to a registry.
-/

namespace TileWorld

namespace Registry

/-- A change of a registry. -/
inductive Command where
  /-- A client connects. -/
  | register (c : ConnectionId)
  /-- A client goes away. -/
  | unregister (c : ConnectionId)
  /-- A client gets a character. -/
  | bind (c : ConnectionId) (e : EntityId)
  /-- A client loses its character. -/
  | unbind (c : ConnectionId)
  /-- A character is taken from its client. -/
  | release (e : EntityId)
deriving DecidableEq, Inhabited

/-- The registry after a change. -/
def execute (r : Registry) : Command → Registry
  | .register c => r.register c
  | .unregister c => (r.unregister c).2
  | .bind c e => (r.bind c e).toOption.getD r
  | .unbind c => (r.unbind c).2
  | .release e => (r.release e).2

/-- The registries that can come about from `r`. -/
def Becomes (r : Registry) : Registry → Prop := Reaches execute (fun _ _ => True) r

/-! ### The character of a client -/

@[simp] theorem entityOf_register (r : Registry) (c c' : ConnectionId) :
    (r.register c).entityOf c' = if c' = c then none else r.entityOf c' := by
  simp only [entityOf, register, Table.getElem?_insert]
  split <;> rfl

@[simp] theorem entityOf_unregister (r : Registry) (c c' : ConnectionId) :
    (r.unregister c).2.entityOf c' = if c' = c then none else r.entityOf c' := by
  simp only [entityOf, unregister, Table.getElem?_erase]
  split <;> rfl

@[simp] theorem entityOf_unbind (r : Registry) (c c' : ConnectionId) :
    (r.unbind c).2.entityOf c' = if c' = c then none else r.entityOf c' := by
  simp only [entityOf, unbind, Table.getElem?_modify]
  split
  · cases r.sessions[c']? <;> rfl
  · rfl

theorem entityOf_release (r : Registry) (e : EntityId) (c : ConnectionId) :
    (r.release e).2.entityOf c = if r.connectionOf e = some c then none else r.entityOf c := by
  unfold release
  split
  · simp_all
  · rename_i c' h
    simp only [entityOf, Table.getElem?_modify, h, Option.some.injEq, eq_comm]
    split
    · cases r.sessions[c]? <;> rfl
    · rfl

/-- When a client can get a character, and what becomes of the registry then. -/
theorem bind_eq_ok_iff {r r' : Registry} {c : ConnectionId} {e : EntityId} :
    r.bind c e = .ok r' ↔ r.connectionOf e = none ∧ ∃ s, r.sessions[c]? = some s ∧
      s.entity = none ∧
        r' = ⟨r.sessions.insert c { s with entity := some e }, r.controllers.insert e c⟩ := by
  have hfree : r.controllers.contains e = true ↔ ¬ r.connectionOf e = none := by
    rw [connectionOf, Std.ExtTreeMap.contains_eq_isSome_getElem?, Option.isSome_iff_ne_none]
  unfold bind
  by_cases he : r.connectionOf e = none
  · rw [if_neg (by simpa [hfree] using he)]
    cases hs : r.sessions[c]? with
    | none => simp
    | some s =>
      cases hc : s.entity with
      | none => simp [he, hc, eq_comm]
      | some e' => simp [hc]
  · rw [if_pos (hfree.mpr he)]
    simp [he]

/-- A binding gives a client its character and changes nothing for the others. -/
theorem entityOf_bind {r r' : Registry} {c : ConnectionId} {e : EntityId}
    (h : r.bind c e = .ok r') (c' : ConnectionId) :
    r'.entityOf c' = if c' = c then some e else r.entityOf c' := by
  obtain ⟨_, s, _, _, rfl⟩ := bind_eq_ok_iff.mp h
  simp only [entityOf, Table.getElem?_insert]
  split <;> rfl

/-! ### The client of a character -/

theorem getElem?_forget (controllers : Table EntityId ConnectionId) (o : Option EntityId)
    (e : EntityId) :
    (forget controllers o)[e]? = if o = some e then none else controllers[e]? := by
  cases o with
  | none => simp [forget]
  | some e' => simp only [forget, Option.elim, Table.getElem?_erase, Option.some.injEq, eq_comm]

/-- A client that connects again loses its character. -/
theorem connectionOf_register (r : Registry) (c : ConnectionId) (e : EntityId) :
    (r.register c).connectionOf e = if r.entityOf c = some e then none else r.connectionOf e :=
  getElem?_forget ..

theorem connectionOf_unregister (r : Registry) (c : ConnectionId) (e : EntityId) :
    (r.unregister c).2.connectionOf e =
      if r.entityOf c = some e then none else r.connectionOf e :=
  getElem?_forget ..

theorem connectionOf_unbind (r : Registry) (c : ConnectionId) (e : EntityId) :
    (r.unbind c).2.connectionOf e =
      if r.entityOf c = some e then none else r.connectionOf e :=
  getElem?_forget ..

/-- Whoever is released has no client, and nobody else loses one. -/
theorem connectionOf_release (r : Registry) (e e' : EntityId) :
    (r.release e).2.connectionOf e' = if e' = e then none else r.connectionOf e' := by
  unfold release
  split
  · split <;> simp_all
  · exact Table.getElem?_erase ..

/-- A character that is bound has its client, and nobody else gets another one. -/
theorem connectionOf_bind {r r' : Registry} {c : ConnectionId} {e : EntityId}
    (h : r.bind c e = .ok r') (e' : EntityId) :
    r'.connectionOf e' = if e' = e then some c else r.connectionOf e' := by
  obtain ⟨_, s, _, _, rfl⟩ := bind_eq_ok_iff.mp h
  exact Table.getElem?_insert ..

end Registry

end TileWorld
