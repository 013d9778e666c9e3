import TileWorld.Session.Binding

/-!
# Consistent registries

A registry has a table for each direction: which character a client controls, and which client
controls a character. In a consistent registry (`Registry.Consistent`) the one is the inverse of the
other. A registry is consistent while it is empty and stays so in every change
(`Registry.Consistent.execute`); what each change does to the characters that somebody controls is
said along with it.
-/

namespace TileWorld

namespace Registry

/-- A character has a client exactly when the client has the character. -/
def Consistent (r : Registry) : Prop :=
  ∀ c e, r.connectionOf e = some c ↔ r.entityOf c = some e

/-- Somebody controls the character. -/
def Controls (r : Registry) (e : EntityId) : Prop := ∃ c, r.entityOf c = some e

variable {r r' : Registry}

theorem consistent_empty : ({} : Registry).Consistent := by
  intro c e
  simp [connectionOf, entityOf]

theorem not_controls_empty (e : EntityId) : ¬ ({} : Registry).Controls e := by
  rintro ⟨c, h⟩
  simp [entityOf] at h

/-- No two clients have the same character. -/
theorem Consistent.connection_eq (hr : r.Consistent) {c c' : ConnectionId} {e : EntityId}
    (h : r.entityOf c = some e) (h' : r.entityOf c' = some e) : c = c' := by
  rw [← hr] at h h'
  exact Option.some.inj (h.symm.trans h')

theorem Consistent.connectionOf_eq_none_iff (hr : r.Consistent) {e : EntityId} :
    r.connectionOf e = none ↔ ¬ r.Controls e := by
  rw [Option.eq_none_iff_forall_ne_some, Controls, not_exists]
  exact forall_congr' fun c => not_congr (hr c e)

/-! ### Giving a character up -/

/-- One client has no character any more, and that is all that clients and characters see. -/
structure Drops (r r' : Registry) (c : ConnectionId) : Prop where
  entityOf : ∀ c', r'.entityOf c' = if c' = c then none else r.entityOf c'
  connectionOf : ∀ e, r'.connectionOf e = if r.entityOf c = some e then none else r.connectionOf e

/-- A client that connects drops the character that was bound to it. -/
theorem drops_register (r : Registry) (c : ConnectionId) : r.Drops (r.register c) c :=
  ⟨r.entityOf_register c, r.connectionOf_register c⟩

theorem drops_unregister (r : Registry) (c : ConnectionId) : r.Drops (r.unregister c).2 c :=
  ⟨r.entityOf_unregister c, r.connectionOf_unregister c⟩

theorem drops_unbind (r : Registry) (c : ConnectionId) : r.Drops (r.unbind c).2 c :=
  ⟨r.entityOf_unbind c, r.connectionOf_unbind c⟩

/-- A registry stays consistent when a client drops its character. -/
theorem Consistent.drops (hr : r.Consistent) {c : ConnectionId} (h : r.Drops r' c) :
    r'.Consistent := by
  intro c' e
  rw [h.connectionOf, h.entityOf]
  by_cases hc : c' = c
  · rw [if_pos hc, hc]
    -- whoever had the client has been told
    split
    · simp
    · rename_i hne
      rw [hr]
      simp [hne]
  · rw [if_neg hc]
    split
    · rename_i he
      refine iff_of_false (by simp) fun he' => hc (hr.connection_eq he' he)
    · exact hr c' e

/-- Only the character that is dropped loses its client. -/
theorem Consistent.controls_drops (hr : r.Consistent) {c : ConnectionId} (h : r.Drops r' c)
    (e : EntityId) : r'.Controls e ↔ r.Controls e ∧ r.entityOf c ≠ some e := by
  simp only [Controls, h.entityOf]
  constructor
  · rintro ⟨c', hc'⟩
    split at hc'
    · cases hc'
    · rename_i hne
      exact ⟨⟨c', hc'⟩, fun he => hne (hr.connection_eq hc' he)⟩
  · rintro ⟨⟨c', hc'⟩, hne⟩
    refine ⟨c', ?_⟩
    rwa [if_neg (by rintro rfl; exact hne hc')]

theorem Drops.controls {c : ConnectionId} (h : r.Drops r' c) {e : EntityId} (he : r'.Controls e) :
    r.Controls e := by
  obtain ⟨c', hc'⟩ := he
  rw [h.entityOf] at hc'
  split at hc'
  · cases hc'
  · exact ⟨c', hc'⟩

/-- Whoever takes a character from its client lets the client drop it. -/
theorem Consistent.drops_release (hr : r.Consistent) {e : EntityId} {c : ConnectionId}
    (h : r.connectionOf e = some c) : r.Drops (r.release e).2 c where
  entityOf c' := by
    simp only [entityOf_release, h, Option.some.injEq, eq_comm]
  connectionOf e' := by
    simp only [connectionOf_release, (hr c e).mp h, Option.some.injEq, eq_comm]

theorem release_of_connectionOf_eq_none {e : EntityId} (h : r.connectionOf e = none) :
    (r.release e).2 = r := by
  rw [release, h]

/-- A registry stays consistent when a character is released. -/
theorem Consistent.release (hr : r.Consistent) (e : EntityId) : (r.release e).2.Consistent := by
  rcases h : r.connectionOf e with _ | c
  · rwa [release_of_connectionOf_eq_none h]
  · exact hr.drops (hr.drops_release h)

/-- A character that was taken from its client is controlled by nobody. -/
theorem Consistent.controls_release (hr : r.Consistent) (e e' : EntityId) :
    (r.release e).2.Controls e' ↔ r.Controls e' ∧ e' ≠ e := by
  rcases h : r.connectionOf e with _ | c
  · rw [release_of_connectionOf_eq_none h]
    refine ⟨fun he' => ⟨he', ?_⟩, And.left⟩
    rintro rfl
    exact hr.connectionOf_eq_none_iff.mp h he'
  · rw [hr.controls_drops (hr.drops_release h), (hr c e).mp h, ne_eq, Option.some.injEq]
    simp only [ne_eq, eq_comm]

/-- Many characters are taken from their clients. -/
theorem Consistent.releaseAll (hr : r.Consistent) (es : List EntityId) :
    (es.foldl (fun r e => (r.release e).2) r).Consistent ∧
      ∀ e, (es.foldl (fun r e => (r.release e).2) r).Controls e ↔ r.Controls e ∧ e ∉ es := by
  induction es generalizing r with
  | nil => exact ⟨hr, fun e => by simp⟩
  | cons e es ih =>
    obtain ⟨hcons, hcontrols⟩ := ih (hr.release e)
    refine ⟨hcons, ?_⟩
    intro e'
    rw [List.foldl_cons, hcontrols, hr.controls_release, List.mem_cons, not_or, and_assoc]

/-! ### Getting a character -/

/-- A registry stays consistent when a character is bound. -/
theorem Consistent.bind (hr : r.Consistent) {c : ConnectionId} {e : EntityId}
    (h : r.bind c e = .ok r') : r'.Consistent := by
  obtain ⟨hfree, s, hs, hnone, -⟩ := bind_eq_ok_iff.mp h
  have hc : r.entityOf c = none := by rw [entityOf, hs]; exact hnone
  intro c' e'
  rw [connectionOf_bind h, entityOf_bind h]
  by_cases hc' : c' = c <;> by_cases he' : e' = e
  · simp [hc', he']
  · rw [if_neg he', if_pos hc', hc', hr, hc]
    simp [Ne.symm he']
  · rw [if_pos he', if_neg hc', he', ← hr, hfree]
    simp [Ne.symm hc']
  · rw [if_neg he', if_neg hc', hr]

theorem controls_bind {c : ConnectionId} {e : EntityId} (h : r.bind c e = .ok r')
    (e' : EntityId) : r'.Controls e' ↔ e' = e ∨ r.Controls e' := by
  obtain ⟨-, s, hs, hnone, -⟩ := bind_eq_ok_iff.mp h
  have hc : r.entityOf c = none := by rw [entityOf, hs]; exact hnone
  simp only [Controls, entityOf_bind h]
  constructor
  · rintro ⟨c', hc'⟩
    split at hc'
    · exact .inl (Option.some.inj hc').symm
    · exact .inr ⟨c', hc'⟩
  · rintro (rfl | ⟨c', hc'⟩)
    · exact ⟨c, if_pos rfl⟩
    · refine ⟨c', ?_⟩
      rwa [if_neg (by rintro rfl; rw [hc] at hc'; cases hc')]

/-! ### Every change -/

theorem entityOf_close (r : Registry) (c c' : ConnectionId) :
    (r.close c).entityOf c' = r.entityOf c' := by
  simp only [entityOf, close, Table.getElem?_modify]
  split
  · rcases r.sessions[c']? <;> rfl
  · rfl

theorem Consistent.close (hr : r.Consistent) (c : ConnectionId) : (r.close c).Consistent := by
  intro c' e
  rw [entityOf_close]
  exact hr c' e

theorem controls_close (r : Registry) (c : ConnectionId) (e : EntityId) :
    (r.close c).Controls e ↔ r.Controls e := by
  simp only [Controls, entityOf_close]

/-- Every change leaves a registry consistent, also one that is refused. -/
theorem Consistent.execute (hr : r.Consistent) (k : Command) : (r.execute k).Consistent := by
  cases k with
  | register c => exact hr.drops (r.drops_register c)
  | unregister c => exact hr.drops (r.drops_unregister c)
  | bind c e =>
    rw [Registry.execute]
    rcases h : r.bind c e with err | r'
    · exact hr
    · exact hr.bind h
  | unbind c => exact hr.drops (r.drops_unbind c)
  | release e => exact hr.release e

end Registry

end TileWorld
