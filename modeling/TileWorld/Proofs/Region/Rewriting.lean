import TileWorld.Proofs.Entity.Life
import TileWorld.Region.Pass

/-!
# Passes that change everybody where it is

Most passes over a region change every entity by itself and leave the region as it is otherwise:
nobody comes and nobody goes. `Region.Rewrites R` says this of two regions, where `R` relates each
entity to what it has become. The passes of a tick before anybody is told are of this kind
(`rewrites_advance`), and so is a change of one entity (`rewrites_modify`).
-/

namespace TileWorld

/-! ### Threading a state through a table -/

section Thread

variable {κ α σ : Type}

/-- Whatever is in a threaded list has come about from what was there, in some state. -/
theorem exists_of_mem_threadList {f : σ → α → α × σ} {k : κ} {v' : α} {l : List (κ × α)} {s : σ}
    (h : (k, v') ∈ (threadList f s l).1) : ∃ v r, (k, v) ∈ l ∧ v' = (f r v).1 := by
  induction l generalizing s with
  | nil => simp [threadList] at h
  | cons p l ih =>
    obtain ⟨k₀, v₀⟩ := p
    simp only [threadList, List.mem_cons, Prod.mk.injEq] at h
    rcases h with ⟨rfl, rfl⟩ | h
    · exact ⟨v₀, s, List.mem_cons_self, rfl⟩
    · obtain ⟨v, r, hv, hf⟩ := ih h
      exact ⟨v, r, List.mem_cons_of_mem _ hv, hf⟩

/-- Whatever is in a list becomes something in the threaded list, in some state. -/
theorem exists_mem_threadList {f : σ → α → α × σ} {k : κ} {v : α} {l : List (κ × α)} {s : σ}
    (h : (k, v) ∈ l) : ∃ r, (k, (f r v).1) ∈ (threadList f s l).1 := by
  induction l generalizing s with
  | nil => simp at h
  | cons p l ih =>
    obtain ⟨k₀, v₀⟩ := p
    simp only [List.mem_cons, Prod.mk.injEq] at h
    rcases h with ⟨rfl, rfl⟩ | h
    · exact ⟨s, List.mem_cons_self⟩
    · obtain ⟨r, hr⟩ := ih (s := (f s v₀).2) h
      exact ⟨r, List.mem_cons_of_mem _ hr⟩

/-- Each look-up in a threaded table is the old one, changed in some state. -/
theorem Table.getElem?_thread [Ord κ] [Std.TransOrd κ] [Std.LawfulEqOrd κ] (f : σ → α → α × σ)
    (s : σ) (t : Table κ α) (k : κ) :
    ∃ r, (t.thread f s).1[k]? = t[k]?.map fun v => (f r v).1 := by
  have hmem (v' : α) : (t.thread f s).1[k]? = some v' ↔ (k, v') ∈ (threadList f s t.toList).1 := by
    rw [← toList_thread, Std.ExtTreeMap.mem_toList_iff_getElem?_eq_some]
  rcases hk : t[k]? with _ | v
  · refine ⟨s, ?_⟩
    rw [Option.map_none, Option.eq_none_iff_forall_ne_some]
    intro v' hv'
    obtain ⟨v, -, hv, -⟩ := exists_of_mem_threadList ((hmem v').mp hv')
    rw [Std.ExtTreeMap.mem_toList_iff_getElem?_eq_some, hk] at hv
    exact absurd hv (by simp)
  · have hv : (k, v) ∈ t.toList := Std.ExtTreeMap.mem_toList_iff_getElem?_eq_some.mpr hk
    obtain ⟨r, hr⟩ := exists_mem_threadList (f := f) (s := s) hv
    exact ⟨r, (hmem _).mpr hr⟩

end Thread

namespace Region

/-! ### Look-ups -/

/-- Whoever is there after somebody has left was there before. -/
theorem find?_of_remove {g g' : Region} {id k : EntityId} {e e' : Entity}
    (h : g.remove id = some (e, g')) (hk : g'.find? k = some e') :
    k ≠ id ∧ g.find? k = some e' := by
  rw [find?_remove h] at hk
  exact Option.ite_none_left_eq_some.mp hk

/-- Everybody thinks with the random stream as it stands then. -/
theorem find?_think (g : Region) (id : EntityId) :
    ∃ r, g.think.find? id = (g.find? id).map fun e => (Entity.think r e).1 :=
  Table.getElem?_thread ..

/-- Before anybody is told, everybody has lived through the passes of a tick. -/
theorem find?_advance (g : Region) (id : EntityId) :
    ∃ r, g.advance.find? id = (g.find? id).map (Entity.live g.terrain r) := by
  obtain ⟨r, hr⟩ := g.freeze.find?_think id
  refine ⟨r, ?_⟩
  rw [advance, find?_refile, find?_step, hr, find?_freeze, Option.map_map, Option.map_map]
  rfl

/-! ### Regions in which everybody was changed -/

/-- Everybody has become something else, and nobody has come or gone. -/
structure Rewrites (R : Entity → Entity → Prop) (g g' : Region) : Prop where
  id : g'.id = g.id
  terrain : g'.terrain = g.terrain
  publicIds : g'.publicIds = g.publicIds
  back : ∀ {k e'}, g'.find? k = some e' → ∃ e, g.find? k = some e ∧ R e e'
  forth : ∀ {k e}, g.find? k = some e → ∃ e', g'.find? k = some e' ∧ R e e'

variable {R : Entity → Entity → Prop} {g g' : Region}

/-- It is enough to see each look-up changed. -/
theorem rewrites_of_find? (hid : g'.id = g.id) (hterrain : g'.terrain = g.terrain)
    (hpublicIds : g'.publicIds = g.publicIds)
    (h : ∀ k, ∃ f : Entity → Entity, (∀ e, R e (f e)) ∧ g'.find? k = (g.find? k).map f) :
    Rewrites R g g' := by
  refine ⟨hid, hterrain, hpublicIds, fun {k e'} hk => ?_, fun {k e} hk => ?_⟩
  · obtain ⟨f, hf, heq⟩ := h k
    rw [hk] at heq
    obtain ⟨e, he, rfl⟩ := Option.map_eq_some_iff.mp heq.symm
    exact ⟨e, he, hf e⟩
  · obtain ⟨f, hf, heq⟩ := h k
    rw [hk, Option.map_some] at heq
    exact ⟨f e, heq, hf e⟩

/-- In the passes everybody lives on, and nobody comes or goes. -/
theorem rewrites_advance (g : Region) :
    Rewrites (fun e e' => ∃ r, e' = e.live g.terrain r) g g.advance :=
  rewrites_of_find? rfl rfl rfl fun k =>
    let ⟨r, hr⟩ := g.find?_advance k
    ⟨_, fun _ => ⟨r, rfl⟩, hr⟩

theorem rewrites_clearChanges (g : Region) :
    Rewrites (fun e e' => e' = e.clearChanges) g g.clearChanges :=
  rewrites_of_find? rfl rfl rfl fun k => ⟨_, fun _ => rfl, g.find?_clearChanges k⟩

theorem rewrites_modify (g : Region) (id : EntityId) (f : Entity → Entity) :
    Rewrites (fun e e' => e' = e ∨ e' = f e) g (g.modify id f) := by
  refine rewrites_of_find? rfl rfl rfl ?_
  intro k
  rw [find?_modify]
  split
  · exact ⟨f, fun _ => .inr rfl, rfl⟩
  · exact ⟨fun e => e, fun _ => .inl rfl, (Option.map_id' ..).symm⟩

/-- The same identities are there before and after. -/
theorem Rewrites.isSome_find? (h : Rewrites R g g') (k : EntityId) :
    (g'.find? k).isSome = (g.find? k).isSome := by
  rw [Bool.eq_iff_iff, Option.isSome_iff_exists, Option.isSome_iff_exists]
  constructor
  · rintro ⟨e', he'⟩
    obtain ⟨e, he, -⟩ := h.back he'
    exact ⟨e, he⟩
  · rintro ⟨e, he⟩
    obtain ⟨e', he', -⟩ := h.forth he
    exact ⟨e', he'⟩

end Region

end TileWorld
