import Mathlib.Order.Defs.LinearOrder
import TileWorld.Proofs.Session.Consistency

/-!
# Who has whom

A registry as a relation: `Registry.Binds` says that a client is connected and has a character. In
whatever comes about from the empty registry, `Registry.matching_of_becomes`, the relation is one to
one and the tables of the two directions are its two readings; a character is given to a client
exactly if neither has anybody and the client is connected; and whatever else happens gives up one
binding at most, names the binding that it gave up, and keeps all the others.
-/

namespace TileWorld

namespace Registry

/-- The client is connected and has the character. -/
def Binds (r : Registry) (c : ConnectionId) (e : EntityId) : Prop :=
  ∃ s, r.sessions[c]? = some s ∧ s.entity = some e

variable {r r' : Registry} {c : ConnectionId} {e : EntityId}

/-- A client is bound to the character that is listed with it. -/
theorem binds_iff : r.Binds c e ↔ r.entityOf c = some e :=
  Option.bind_eq_some_iff.symm

theorem forall_not_binds_iff : (∀ e, ¬ r.Binds c e) ↔ r.entityOf c = none := by
  simp only [binds_iff, Option.eq_none_iff_forall_ne_some, ne_eq]

/-- In a consistent registry the second table lists the same bindings as the first. -/
theorem Consistent.connectionOf_iff (hr : r.Consistent) :
    r.connectionOf e = some c ↔ r.Binds c e := by
  rw [binds_iff]
  exact hr c e

theorem Consistent.forall_not_binds_iff (hr : r.Consistent) :
    (∀ c, ¬ r.Binds c e) ↔ r.connectionOf e = none := by
  simp only [← hr.connectionOf_iff, Option.eq_none_iff_forall_ne_some, ne_eq]

/-! ### Getting a character -/

/-- When a client can get a character, in terms of who has whom. -/
theorem Consistent.exists_bind_eq_ok_iff (hr : r.Consistent) :
    (∃ r', r.bind c e = .ok r') ↔
      c ∈ r.sessions ∧ (∀ e', ¬ r.Binds c e') ∧ ∀ c', ¬ r.Binds c' e := by
  rw [hr.forall_not_binds_iff, Registry.forall_not_binds_iff, entityOf,
    Std.ExtTreeMap.mem_iff_isSome_getElem?, Option.isSome_iff_exists]
  constructor
  · rintro ⟨r', h⟩
    obtain ⟨hfree, s, hs, hnone, -⟩ := bind_eq_ok_iff.mp h
    exact ⟨⟨s, hs⟩, by rw [hs]; exact hnone, hfree⟩
  · rintro ⟨⟨s, hs⟩, hnone, hfree⟩
    rw [hs] at hnone
    exact ⟨_, bind_eq_ok_iff.mpr ⟨hfree, s, hs, hnone, rfl⟩⟩

/-- A binding adds one pair and takes away none. -/
theorem binds_bind (h : r.bind c e = .ok r') (c' : ConnectionId) (e' : EntityId) :
    r'.Binds c' e' ↔ (c' = c ∧ e' = e) ∨ r.Binds c' e' := by
  obtain ⟨-, s, hs, hnone, -⟩ := bind_eq_ok_iff.mp h
  have hc : r.entityOf c = none := by rw [entityOf, hs]; exact hnone
  rw [binds_iff, binds_iff, entityOf_bind h]
  by_cases hc' : c' = c
  · simp [hc', hc, eq_comm]
  · simp [hc']

/-- A binding that is refused changes nothing. -/
theorem execute_bind_of_error {err : SessionError} (h : r.bind c e = .error err) :
    r.execute (.bind c e) = r := by
  rw [execute, h]
  rfl

/-! ### Giving a character up -/

/-- Whoever drops one client keeps the bindings of all the others. -/
theorem Drops.binds (h : r.Drops r' c) (c' : ConnectionId) (e : EntityId) :
    r'.Binds c' e ↔ r.Binds c' e ∧ c' ≠ c := by
  rw [binds_iff, binds_iff, h.entityOf]
  by_cases hc : c' = c <;> simp [hc]

theorem fst_unregister (r : Registry) (c : ConnectionId) : (r.unregister c).1 = r.entityOf c := rfl

theorem fst_unbind (r : Registry) (c : ConnectionId) : (r.unbind c).1 = r.entityOf c := rfl

theorem fst_release (r : Registry) (e : EntityId) : (r.release e).1 = r.connectionOf e := by
  unfold release
  split
  · rename_i h
    exact h.symm
  · rename_i c h
    exact h.symm

/-- A character that is taken from its client leaves all other characters where they are. -/
theorem Consistent.binds_release (hr : r.Consistent) (e : EntityId) (c' : ConnectionId)
    (e' : EntityId) : (r.release e).2.Binds c' e' ↔ r.Binds c' e' ∧ e' ≠ e := by
  rcases h : r.connectionOf e with _ | c
  · rw [release_of_connectionOf_eq_none h]
    refine ⟨fun hb => ⟨hb, ?_⟩, And.left⟩
    rintro rfl
    exact hr.forall_not_binds_iff.mpr h c' hb
  · -- of the characters that the client has, the one that is taken is the only one
    have hc := (hr c e).mp h
    rw [(hr.drops_release h).binds]
    refine and_congr_right fun hb => not_congr ?_
    rw [binds_iff] at hb
    constructor
    · rintro rfl
      exact Option.some.inj (hb.symm.trans hc)
    · rintro rfl
      exact hr.connection_eq hb hc

/-! ### Every registry -/

/-- Every registry that came about from nothing is consistent. -/
theorem consistent_of_becomes (h : Becomes {} r) : r.Consistent :=
  h.invariant consistent_empty fun _ k hr _ => hr.execute k

/-- Whatever has happened to a registry, its tables are the two readings of one relation that is one
to one. A character is given to a client exactly if the client is connected and neither has
anybody, and otherwise nothing happens. A client that connects, again or for the first time, one
that goes away, one that gives its character up, and a character that is taken, each lose their own
binding and no other; what is given back is that binding. -/
theorem matching_of_becomes (h : Becomes {} r) :
    (∀ c e, r.controllers[e]? = some c ↔ r.Binds c e) ∧
      (∀ c e, r.entityOf c = some e ↔ r.connectionOf e = some c) ∧
      (∀ c e, (∃ r', r.bind c e = .ok r') ↔
        c ∈ r.sessions ∧ (∀ e', ¬ r.Binds c e') ∧ ∀ c', ¬ r.Binds c' e) ∧
      (∀ c e r', r.bind c e = .ok r' → r.execute (.bind c e) = r' ∧
        ∀ c' e', r'.Binds c' e' ↔ (c' = c ∧ e' = e) ∨ r.Binds c' e') ∧
      (∀ c e err, r.bind c e = .error err → r.execute (.bind c e) = r) ∧
      (∀ c c' e, (r.register c).Binds c' e ↔ r.Binds c' e ∧ c' ≠ c) ∧
      (∀ c, (∀ e, (r.unregister c).1 = some e ↔ r.Binds c e) ∧
        ∀ c' e, (r.unregister c).2.Binds c' e ↔ r.Binds c' e ∧ c' ≠ c) ∧
      (∀ c, (∀ e, (r.unbind c).1 = some e ↔ r.Binds c e) ∧
        ∀ c' e, (r.unbind c).2.Binds c' e ↔ r.Binds c' e ∧ c' ≠ c) ∧
      ∀ e, (∀ c, (r.release e).1 = some c ↔ r.Binds c e) ∧
        ∀ c e', (r.release e).2.Binds c e' ↔ r.Binds c e' ∧ e' ≠ e := by
  have hr := consistent_of_becomes h
  refine ⟨fun c e => hr.connectionOf_iff, fun c e => (hr c e).symm,
    fun c e => hr.exists_bind_eq_ok_iff, fun c e r' hb => ⟨?_, binds_bind hb⟩,
    fun c e err => execute_bind_of_error, fun c => (r.drops_register c).binds,
    fun c => ⟨fun e => ?_, (r.drops_unregister c).binds⟩,
    fun c => ⟨fun e => ?_, (r.drops_unbind c).binds⟩, fun e => ⟨fun c => ?_, hr.binds_release e⟩⟩
  · rw [execute, hb]
    rfl
  · rw [fst_unregister, binds_iff]
  · rw [fst_unbind, binds_iff]
  · rw [fst_release, hr.connectionOf_iff]

/-! ### An example -/

/-- A client on the machine of the server. -/
def caller (port : UInt16) : ConnectionId := .v4 ⟨127, 0, 0, 1⟩ port

/-- A client has connected for a second time, and another one has got the character that it lost. -/
def handover : Registry :=
  [.register (caller 1), .bind (caller 1) (.nth 1), .register (caller 1), .register (caller 2),
    .bind (caller 2) (.nth 1), .bind (caller 2) (.nth 2)].foldl execute {}

theorem becomes_handover : Becomes {} handover := Reaches.foldl _ _ (by simp)

/-- The second client has the character that the first one lost, and the first one could have
another. -/
theorem matching_at_handover :
    handover.Binds (caller 2) (.nth 1) ∧ handover.controllers[EntityId.nth 1]? = some (caller 2) ∧
      (∃ r', handover.bind (caller 1) (.nth 2) = .ok r') ∧
      ∀ c e, (handover.release (.nth 1)).2.Binds c e ↔ handover.Binds c e ∧ e ≠ .nth 1 := by
  obtain ⟨htable, -, hbind, -, -, -, -, -, hrelease⟩ := matching_of_becomes becomes_handover
  have htwo : handover.Binds (caller 2) (.nth 1) := binds_iff.mpr (by cbv)
  -- the first client has nobody any more, and nobody has the second character
  have hone : ∀ e, ¬ handover.Binds (caller 1) e := forall_not_binds_iff.mpr (by cbv)
  have hfree : ∀ c, ¬ handover.Binds c (.nth 2) :=
    (consistent_of_becomes becomes_handover).forall_not_binds_iff.mpr (by cbv)
  have hconnected : caller 1 ∈ handover.sessions := by
    rw [Std.ExtTreeMap.mem_iff_isSome_getElem?]
    cbv
  exact ⟨htwo, (htable _ _).mpr htwo, (hbind _ _).mpr ⟨hconnected, hone, hfree⟩,
    (hrelease _).2⟩

end Registry

end TileWorld
