import TileWorld.Proofs.Region.Rewriting

/-!
# Public ids on a region

Clients tell the beings of a map apart by their public ids. That works as long as everybody has
one, no two have the same, and none that is in use is free in the pool: `Region.Numbered`. Coming
and leaving keep it so, because the pool gives only what is free and takes back what is not.
-/

namespace TileWorld

/-- A public id other than that of nobody. -/
theorem PublicId.ne_nobody {x : PublicId} (h : x.val < nobody.val) : x ≠ nobody := by
  rintro rfl
  exact absurd h (UInt16.lt_irrefl _)

namespace IdPool

/-- The limit of a pool stays where it is. -/
theorem limit_of_take {p p' : IdPool} {x : PublicId} (h : p.take = some (x, p')) :
    p'.limit = p.limit := by
  rw [take] at h
  split at h
  · cases h
    rfl
  · split at h <;> cases h
    rfl

/-- A pool hands out public ids below the one of nobody. -/
structure Sound (p : IdPool) : Prop where
  wellFormed : p.WellFormed
  limit : p.limit = PublicId.nobody.val
  free_lt : ∀ x, p.Free x → x.val < PublicId.nobody.val

variable {p p' : IdPool} {x : PublicId}

theorem sound_default : Sound {} where
  wellFormed := wellFormed_empty _
  limit := rfl
  free_lt x h := by
    rcases h with h | h
    · exact absurd h Std.ExtTreeSet.not_mem_empty
    · exact h.2

/-- A pool goes on handing out public ids below the one of nobody. -/
theorem Sound.take (hp : p.Sound) (h : p.take = some (x, p')) : p'.Sound where
  wellFormed := hp.wellFormed.take h
  limit := (limit_of_take h).trans hp.limit
  free_lt y hy := hp.free_lt y ((free_of_take hp.wellFormed h).2.2 y |>.mp hy).2

/-- A number below the limit that is not free was out. -/
theorem Sound.lt_next (hp : p.Sound) (hx : x.val < PublicId.nobody.val) (hfree : ¬ p.Free x) :
    x.val < p.next := by
  rw [← hp.limit] at hx
  refine UInt16.not_le.mp fun hle => hfree ?_
  exact .inr ⟨hle, hx⟩

theorem Sound.giveBack (hp : p.Sound) (hx : x.val < PublicId.nobody.val) (hfree : ¬ p.Free x) :
    (p.giveBack x).Sound where
  wellFormed := hp.wellFormed.giveBack (hp.lt_next hx hfree)
  limit := hp.limit
  free_lt y hy := by
    rcases free_giveBack.mp hy with rfl | hy
    · exact hx
    · exact hp.free_lt y hy

end IdPool

namespace Region

/-- Everybody has a public id of its own, and none of them is free. -/
structure Numbered (g : Region) : Prop where
  pool : g.publicIds.Sound
  taken : ∀ {k e}, g.find? k = some e →
    ∃ x, e.publicId = some x ∧ x.val < PublicId.nobody.val ∧ ¬ g.publicIds.Free x
  distinct : ∀ {k k' e e'}, g.find? k = some e → g.find? k' = some e' →
    e.publicId = e'.publicId → k = k'

variable {g g' : Region}

theorem numbered_empty (id : MapId) (terrain : Terrain) (fixtures : List Fixture)
    (random : RandomStream) : (empty id terrain fixtures random).Numbered where
  pool := IdPool.sound_default
  taken h := by simp [empty, find?] at h
  distinct h := by simp [empty, find?] at h

/-- The number that a newcomer gets was nobody's. -/
theorem Numbered.publicId_ne {e e' : Entity} {x : PublicId} {k : EntityId} (hg : g.Numbered)
    (h : g.insert e = .ok (x, g')) (hk : g.find? k = some e') : e'.publicId ≠ some x := by
  obtain ⟨-, -, -, publicIds, htake, -⟩ := insert_eq_ok_iff.mp h
  intro heq
  obtain ⟨y, hy, -, hfree⟩ := hg.taken hk
  obtain rfl : x = y := Option.some.inj (heq.symm.trans hy)
  exact hfree (IdPool.free_of_take hg.pool.wellFormed htake).1

/-- Entities with the same public id are the same. -/
theorem Numbered.eq_of_publicId (hg : g.Numbered) {k k' : EntityId} {e e' : Entity}
    (hk : g.find? k = some e) (hk' : g.find? k' = some e') (h : e.publicId = e'.publicId) :
    e = e' := by
  obtain rfl := hg.distinct hk hk' h
  exact Option.some.inj (hk.symm.trans hk')

/-- Everybody has a public id of its own after somebody has come. -/
theorem Numbered.insert {e : Entity} {x : PublicId} (hg : g.Numbered)
    (h : g.insert e = .ok (x, g')) : g'.Numbered := by
  have hfind := find?_insert h
  have hne {k : EntityId} {e' : Entity} (hk : g.find? k = some e') : e'.publicId ≠ some x :=
    hg.publicId_ne h hk
  obtain ⟨-, -, -, publicIds, htake, rfl⟩ := insert_eq_ok_iff.mp h
  obtain ⟨hfree, -, hrest⟩ := IdPool.free_of_take hg.pool.wellFormed htake
  refine ⟨hg.pool.take htake, fun {k e'} hk => ?_, fun {k k' e₁ e₂} h₁ h₂ heq => ?_⟩
  · rw [hfind] at hk
    split at hk
    · cases hk
      exact ⟨x, rfl, hg.pool.free_lt x hfree, fun h => ((hrest x).mp h).1 rfl⟩
    · obtain ⟨y, hy, hlt, hnot⟩ := hg.taken hk
      exact ⟨y, hy, hlt, fun h => hnot ((hrest y).mp h).2⟩
  · rw [hfind] at h₁ h₂
    split at h₁ <;> split at h₂
    · rename_i h h'
      rw [h, h']
    · cases h₁
      exact absurd heq.symm (hne h₂)
    · cases h₂
      exact absurd heq (hne h₁)
    · exact hg.distinct h₁ h₂ heq

/-- Everybody has a public id of its own after somebody has left. -/
theorem Numbered.remove {id : EntityId} {e : Entity} (hg : g.Numbered)
    (h : g.remove id = some (e, g')) : g'.Numbered := by
  have hstays {k e'} (hk : g'.find? k = some e') : k ≠ id ∧ g.find? k = some e' :=
    find?_of_remove h hk
  obtain ⟨e₀, he₀, -, rfl⟩ := remove_eq_some_iff.mp h
  obtain ⟨x, hx, hlt, hfree⟩ := hg.taken he₀
  simp only [hx, Option.elim_some] at hstays ⊢
  refine ⟨hg.pool.giveBack hlt hfree, fun {k e'} hk => ?_, fun {k k' e₁ e₂} h₁ h₂ heq => ?_⟩
  · obtain ⟨hne, he'⟩ := hstays hk
    obtain ⟨y, hy, hlt', hfree'⟩ := hg.taken he'
    refine ⟨y, hy, hlt', ?_⟩
    intro h
    -- the only number that has become free was another one's
    obtain rfl | h := IdPool.free_giveBack.mp h
    · exact hne (hg.distinct he' he₀ (hy.trans hx.symm))
    · exact hfree' h
  · exact hg.distinct (hstays h₁).2 (hstays h₂).2 heq

/-- Changes that leave the public ids alone leave everybody with its own. -/
theorem Numbered.rewrite {R : Entity → Entity → Prop} (hg : g.Numbered) (h : Rewrites R g g')
    (hR : ∀ e e', R e e' → e'.publicId = e.publicId) : g'.Numbered := by
  refine ⟨h.publicIds ▸ hg.pool, fun {k e'} hk => ?_, fun {k k' e₁ e₂} h₁ h₂ heq => ?_⟩
  · obtain ⟨e, he, hRe⟩ := h.back hk
    rw [hR e e' hRe, h.publicIds]
    exact hg.taken he
  · obtain ⟨e, he, hRe⟩ := h.back h₁
    obtain ⟨e', he', hRe'⟩ := h.back h₂
    rw [hR _ _ hRe, hR _ _ hRe'] at heq
    exact hg.distinct he he' heq

end Region

end TileWorld
