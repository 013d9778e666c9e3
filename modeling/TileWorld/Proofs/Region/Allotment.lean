import Mathlib
import TileWorld.Proofs.Region.History
import TileWorld.Proofs.Region.Numbering

/-!
# Who gets which public id

A map that begins with nobody on it and with the public ids below a limit never loses one: at any
moment an id below the limit is free exactly when nobody has it (`Region.Allotted.free_iff`). So a
newcomer gets the lowest number that nobody has, and it is turned away for want of a number exactly
when there are as many entities as numbers, which is a matter of counting
(`Region.Allotted.size_eq_iff`): `Region.allotment_of_becomes`.
-/

namespace TileWorld

open Std

theorem PublicId.eq_of_toNat_eq {x y : PublicId} (h : x.val.toNat = y.val.toNat) : x = y := by
  cases x
  cases y
  exact congrArg mk (UInt16.toNat_inj.mp h)

namespace Region

variable {g g' : Region} {limit : UInt16}

/-! ### Public ids in use -/

/-- Somebody on the map has the public id. -/
def Uses (g : Region) (x : PublicId) : Prop := ∃ k e, g.find? k = some e ∧ e.publicId = some x

/-- Whoever comes uses its public id, and everybody else goes on using its own. -/
theorem uses_insert {e : Entity} {x y : PublicId} (h : g.insert e = .ok (x, g')) :
    g'.Uses y ↔ y = x ∨ g.Uses y := by
  have hfind := find?_insert h
  obtain ⟨-, hnew, -⟩ := insert_eq_ok_iff.mp h
  constructor
  · rintro ⟨k, e', hk, hy⟩
    rw [hfind] at hk
    split at hk
    · cases hk
      exact .inl (Option.some.inj hy).symm
    · exact .inr ⟨k, e', hk, hy⟩
  · rintro (rfl | ⟨k, e', hk, hy⟩)
    · exact ⟨e.id, _, (hfind _).trans (if_pos rfl), rfl⟩
    · have hne : k ≠ e.id := by
        rintro rfl
        exact absurd (hnew.symm.trans hk) (by simp)
      exact ⟨k, e', (hfind k).trans ((if_neg hne).trans hk), hy⟩

/-- The same public ids are in use if everybody keeps its own. -/
theorem uses_of_rewrites {R : Entity → Entity → Prop} (h : Rewrites R g g')
    (hR : ∀ e e', R e e' → e'.publicId = e.publicId) {x : PublicId} : g'.Uses x ↔ g.Uses x := by
  constructor
  · rintro ⟨k, e', hk, hx⟩
    obtain ⟨e, he, hRe⟩ := h.back hk
    exact ⟨k, e, he, (hR e e' hRe).symm.trans hx⟩
  · rintro ⟨k, e, hk, hx⟩
    obtain ⟨e', he', hRe⟩ := h.forth hk
    exact ⟨k, e', he', (hR e e' hRe).trans hx⟩

/-! ### What is in use and what is free -/

/-- The public ids below the limit are given out and free: everybody has one of its own, and the
free ones are those that nobody has. -/
structure Allotted (limit : UInt16) (g : Region) : Prop where
  bound : g.publicIds.limit = limit
  wellFormed : g.publicIds.WellFormed
  taken : ∀ {k e}, g.find? k = some e → ∃ x, e.publicId = some x ∧ x.val < limit
  distinct : ∀ {k k' e e'}, g.find? k = some e → g.find? k' = some e' →
    e.publicId = e'.publicId → k = k'
  free_iff : ∀ {x}, g.publicIds.Free x ↔ x.val < limit ∧ ¬ g.Uses x

/-- On a vacant map all public ids below the limit are free. -/
theorem allotted_vacant (id : MapId) (terrain : Terrain) (fixtures : List Fixture)
    (random : RandomStream) (limit : UInt16) :
    Allotted limit (vacant id terrain fixtures random limit) where
  bound := rfl
  wellFormed := IdPool.wellFormed_empty limit
  taken h := absurd ((find?_vacant ..).symm.trans h) (by simp)
  distinct h := absurd ((find?_vacant ..).symm.trans h) (by simp)
  free_iff {x} := by
    have hunused : ¬ (vacant id terrain fixtures random limit).Uses x := by
      rintro ⟨k, e, hk, -⟩
      exact absurd ((find?_vacant ..).symm.trans hk) (by simp)
    have hreturned : x ∉ (vacant id terrain fixtures random limit).publicIds.returned :=
      ExtTreeSet.not_mem_empty
    constructor
    · rintro (h | ⟨-, h⟩)
      · exact absurd h hreturned
      · exact ⟨h, hunused⟩
    · rintro ⟨h, -⟩
      exact .inr ⟨UInt16.le_iff_toNat_le.mpr (Nat.zero_le _), h⟩

/-- Whoever leaves gives up its number, and nobody else does. -/
theorem Allotted.uses_remove {id : EntityId} {e : Entity} {x y : PublicId} (hg : g.Allotted limit)
    (h : g.remove id = some (e, g')) {e₀ : Entity} (he₀ : g.find? id = some e₀)
    (hx : e₀.publicId = some x) : g'.Uses y ↔ y ≠ x ∧ g.Uses y := by
  constructor
  · rintro ⟨k, e', hk, hy⟩
    obtain ⟨hne, he'⟩ := find?_of_remove h hk
    refine ⟨?_, k, e', he', hy⟩
    rintro rfl
    exact hne (hg.distinct he' he₀ (hy.trans hx.symm))
  · rintro ⟨hne, k, e', hk, hy⟩
    have hother : k ≠ id := by
      rintro rfl
      obtain rfl := Option.some.inj (hk.symm.trans he₀)
      exact hne (Option.some.inj (hy.symm.trans hx))
    exact ⟨k, e', (find?_remove h k).trans ((if_neg hother).trans hk), hy⟩

/-- A newcomer gets a number that nobody has, and the lowest such number. -/
theorem Allotted.lowest_of_insert {e : Entity} {x : PublicId} (hg : g.Allotted limit)
    (h : g.insert e = .ok (x, g')) :
    (x.val < limit ∧ ¬ g.Uses x) ∧ ∀ y, ¬ g.Uses y → x.val ≤ y.val := by
  obtain ⟨-, -, -, publicIds, htake, -⟩ := insert_eq_ok_iff.mp h
  obtain ⟨hfree, hle, -⟩ := IdPool.free_of_take hg.wellFormed htake
  have hx := hg.free_iff.mp hfree
  refine ⟨hx, fun y hy => ?_⟩
  by_cases hlt : y.val < limit
  · exact hle y (hg.free_iff.mpr ⟨hlt, hy⟩)
  · exact UInt16.le_trans (UInt16.le_of_lt hx.1) (UInt16.not_lt.mp hlt)

/-- The public ids below the limit stay given out or free when an entity comes. -/
theorem Allotted.insert {e : Entity} {x : PublicId} (hg : g.Allotted limit)
    (h : g.insert e = .ok (x, g')) : g'.Allotted limit := by
  have hfind := find?_insert h
  have huses {y : PublicId} : g'.Uses y ↔ y = x ∨ g.Uses y := uses_insert h
  obtain ⟨⟨hlt, hunused⟩, -⟩ := hg.lowest_of_insert h
  obtain ⟨-, -, -, publicIds, htake, rfl⟩ := insert_eq_ok_iff.mp h
  obtain ⟨-, -, hrest⟩ := IdPool.free_of_take hg.wellFormed htake
  refine ⟨(IdPool.limit_of_take htake).trans hg.bound, hg.wellFormed.take htake,
    fun {k e'} hk => ?_, fun {k k' e₁ e₂} h₁ h₂ heq => ?_, fun {y} => ?_⟩
  · rw [hfind] at hk
    split at hk
    · cases hk
      exact ⟨x, rfl, hlt⟩
    · exact hg.taken hk
  · rw [hfind] at h₁ h₂
    split at h₁ <;> split at h₂
    · rename_i h h'
      rw [h, h']
    · cases h₁
      exact absurd ⟨k', e₂, h₂, heq.symm⟩ hunused
    · cases h₂
      exact absurd ⟨k, e₁, h₁, heq⟩ hunused
    · exact hg.distinct h₁ h₂ heq
  · rw [huses, hrest, hg.free_iff, not_or, and_left_comm]

/-- The public ids below the limit stay given out or free when an entity leaves. -/
theorem Allotted.remove {id : EntityId} {e : Entity} (hg : g.Allotted limit)
    (h : g.remove id = some (e, g')) : g'.Allotted limit := by
  have hstays {k e'} (hk : g'.find? k = some e') : g.find? k = some e' := (find?_of_remove h hk).2
  obtain ⟨e₀, he₀, -, heq⟩ := remove_eq_some_iff.mp h
  obtain ⟨x, hx, hlt⟩ := hg.taken he₀
  have huses {y : PublicId} : g'.Uses y ↔ y ≠ x ∧ g.Uses y := hg.uses_remove h he₀ hx
  have hpool : g'.publicIds = g.publicIds.giveBack x := by rw [heq, hx]; rfl
  -- the number that comes back was out, since it was in use
  have hout : x.val < g.publicIds.next := by
    refine UInt16.not_le.mp fun hle => ?_
    exact (hg.free_iff.mp (.inr ⟨hle, by rwa [hg.bound]⟩)).2 ⟨id, e₀, he₀, hx⟩
  refine ⟨by rw [hpool]; exact hg.bound, by rw [hpool]; exact hg.wellFormed.giveBack hout,
    fun hk => hg.taken (hstays hk), fun h₁ h₂ => hg.distinct (hstays h₁) (hstays h₂),
    fun {y} => ?_⟩
  rw [hpool, IdPool.free_giveBack, huses, hg.free_iff]
  by_cases hy : y = x
  · simp [hy, hlt]
  · simp [hy]

/-- Changes that leave everybody its number leave the numbers given out and free as they were. -/
theorem Allotted.rewrite {S : Entity → Entity → Prop} (hg : g.Allotted limit) (h : Rewrites S g g')
    (hS : ∀ e e', S e e' → e'.publicId = e.publicId) : g'.Allotted limit := by
  refine ⟨by rw [h.publicIds]; exact hg.bound, by rw [h.publicIds]; exact hg.wellFormed,
    fun hk => ?_, fun h₁ h₂ heq => ?_, ?_⟩
  · obtain ⟨e, he, hSe⟩ := h.back hk
    rw [hS _ _ hSe]
    exact hg.taken he
  · obtain ⟨e, he, hSe⟩ := h.back h₁
    obtain ⟨e', he', hSe'⟩ := h.back h₂
    rw [hS _ _ hSe, hS _ _ hSe'] at heq
    exact hg.distinct he he' heq
  · intro x
    rw [h.publicIds, uses_of_rewrites h hS]
    exact hg.free_iff

theorem Allotted.goesOn (hg : g.Allotted limit) (h : g.GoesOn g') : g'.Allotted limit :=
  hg.rewrite h.rewrites fun _ _ hlives => hlives.publicId

/-- Whatever happens, the numbers below the limit are given out and free. -/
theorem Allotted.execute (hg : g.Allotted limit) (c : Command) : (g.execute c).Allotted limit := by
  obtain ⟨e, x, g', -, hins, heq⟩ | ⟨id, e, g', -, hrem, heq⟩ | ⟨-, heq⟩ | hgoes :=
    g.execute_cases c
  · exact heq ▸ hg.insert hins
  · exact heq ▸ hg.remove hrem
  · rw [heq]
    exact ⟨hg.bound, hg.wellFormed, hg.taken, hg.distinct, hg.free_iff⟩
  · exact hg.goesOn hgoes

/-! ### Counting -/

/-- The numbers in use. -/
def numbers (g : Region) : List Nat :=
  g.members.toList.map fun p => (p.2.publicId.getD .nobody).val.toNat

theorem length_numbers (g : Region) : g.numbers.length = g.size := by
  rw [numbers, List.length_map, ExtTreeMap.length_toList]
  rfl

theorem Allotted.mem_numbers_iff (hg : g.Allotted limit) {x : PublicId} :
    x.val.toNat ∈ g.numbers ↔ g.Uses x := by
  simp only [numbers, List.mem_map, Prod.exists, ExtTreeMap.mem_toList_iff_getElem?_eq_some]
  constructor
  · rintro ⟨k, e, hk, hx⟩
    obtain ⟨y, hy, -⟩ := hg.taken hk
    rw [hy, Option.getD_some] at hx
    exact ⟨k, e, hk, hy.trans (congrArg some (PublicId.eq_of_toNat_eq hx))⟩
  · rintro ⟨k, e, hk, hx⟩
    exact ⟨k, e, hk, by rw [hx, Option.getD_some]⟩

theorem Allotted.lt_of_mem_numbers (hg : g.Allotted limit) {n : Nat} (h : n ∈ g.numbers) :
    n < limit.toNat := by
  simp only [numbers, List.mem_map, Prod.exists, ExtTreeMap.mem_toList_iff_getElem?_eq_some] at h
  obtain ⟨k, e, hk, rfl⟩ := h
  obtain ⟨x, hx, hlt⟩ := hg.taken hk
  rw [hx]
  exact UInt16.lt_iff_toNat_lt.mp hlt

/-- No number is in use twice. -/
theorem Allotted.nodup_numbers (hg : g.Allotted limit) : g.numbers.Nodup := by
  refine List.pairwise_map.mpr (ExtTreeMap.distinct_keys_toList.imp_of_mem ?_)
  rintro ⟨k, e⟩ ⟨k', e'⟩ hk hk' hne heq
  rw [ExtTreeMap.mem_toList_iff_getElem?_eq_some] at hk hk'
  obtain ⟨x, hx, -⟩ := hg.taken hk
  obtain ⟨y, hy, -⟩ := hg.taken hk'
  simp only [hx, hy, Option.getD_some] at heq
  obtain rfl := PublicId.eq_of_toNat_eq heq
  exact hne (compare_eq_iff_eq.mpr (hg.distinct hk hk' (hx.trans hy.symm)))

/-- There are as many entities as numbers exactly when every number is in use. -/
theorem Allotted.size_eq_iff (hg : g.Allotted limit) :
    g.size = limit.toNat ↔ ∀ x : PublicId, x.val < limit → g.Uses x := by
  have hsub : g.numbers.toFinset ⊆ Finset.range limit.toNat := fun n hn =>
    Finset.mem_range.mpr (hg.lt_of_mem_numbers (List.mem_toFinset.mp hn))
  have hcard : g.numbers.toFinset.card = g.size :=
    (List.toFinset_card_of_nodup hg.nodup_numbers).trans g.length_numbers
  constructor
  · intro hsize x hx
    have hall : g.numbers.toFinset = Finset.range limit.toNat :=
      Finset.eq_of_subset_of_card_le hsub (by rw [hcard, hsize, Finset.card_range])
    refine hg.mem_numbers_iff.mp (List.mem_toFinset.mp ?_)
    rw [hall]
    exact Finset.mem_range.mpr (UInt16.lt_iff_toNat_lt.mp hx)
  · intro hall
    have hsup : Finset.range limit.toNat ⊆ g.numbers.toFinset := by
      intro n hn
      have hn := Finset.mem_range.mp hn
      have hnat : (UInt16.ofNat n).toNat = n := by
        rw [UInt16.toNat_ofNat']
        exact Nat.mod_eq_of_lt (Nat.lt_trans hn limit.toNat_lt)
      have huses := hall ⟨UInt16.ofNat n⟩ (UInt16.lt_iff_toNat_lt.mpr (by rwa [hnat]))
      rw [List.mem_toFinset, ← hnat]
      exact hg.mem_numbers_iff.mpr huses
    rw [← hcard, Finset.Subset.antisymm hsub hsup, Finset.card_range]

/-- The pool gives nothing exactly when there are as many entities as numbers. -/
theorem Allotted.take_eq_none_iff (hg : g.Allotted limit) :
    g.publicIds.take = none ↔ g.size = limit.toNat := by
  rw [IdPool.take_eq_none_iff, hg.size_eq_iff]
  refine forall_congr' fun x => ?_
  rw [hg.free_iff, not_and, not_not]

/-! ### Coming to a map -/

/-- An entity that may come is turned away exactly when no number is left. -/
theorem insert_eq_noPublicId_iff {e : Entity} (hid : e.publicId = none)
    (hnew : g.contains e.id = false) (hinside : g.terrain.contains e.position = true) :
    g.insert e = .error (.noPublicId e.id g.id) ↔ g.publicIds.take = none := by
  simp only [Region.insert, hid, hnew, hinside, Option.isSome_none, Bool.or_self,
    Bool.false_eq_true, if_false, Bool.not_true]
  rcases g.publicIds.take with _ | ⟨x, publicIds⟩ <;> simp

/-- An entity that may come is let in exactly when a number is left. -/
theorem exists_insert_eq_ok_iff {e : Entity} (hid : e.publicId = none)
    (hnew : g.contains e.id = false) (hinside : g.terrain.contains e.position = true) :
    (∃ x g', g.insert e = .ok (x, g')) ↔ g.publicIds.take ≠ none := by
  have hfind : g.find? e.id = none := by
    simpa only [contains_eq_isSome, Option.isSome_eq_false_iff, Option.isNone_iff_eq_none] using hnew
  simp only [insert_eq_ok_iff, hid, hfind, hinside, true_and]
  rcases g.publicIds.take with _ | ⟨x, publicIds⟩ <;> simp

/-- As long as somebody stays, nothing that happens gives it another number. -/
theorem publicId_execute {c : Command} {k : EntityId} {e e' : Entity} (he : g.find? k = some e)
    (he' : (g.execute c).find? k = some e') : e'.publicId = e.publicId := by
  obtain ⟨e₁, x, g', -, hins, heq⟩ | ⟨id, e₁, g', -, hrem, heq⟩ | ⟨-, heq⟩ | hgoes :=
    g.execute_cases c
  · obtain ⟨-, hnew, -⟩ := insert_eq_ok_iff.mp hins
    rw [heq, find?_insert hins] at he'
    split at he'
    · rename_i hk
      rw [hk, hnew] at he
      cases he
    · rw [Option.some.inj (he.symm.trans he')]
  · rw [heq] at he'
    rw [Option.some.inj (he.symm.trans (find?_of_remove hrem he').2)]
  · rw [heq] at he'
    rw [Option.some.inj (he.symm.trans he')]
  · obtain ⟨e₀, he₀, hlives⟩ := hgoes.rewrites.back he'
    rw [hlives.publicId, Option.some.inj (he₀.symm.trans he)]

/-- The entity is still there after what happens. -/
def AdmitsStaying (k : EntityId) (g : Region) (c : Command) : Prop :=
  (g.execute c).contains k = true

/-- Whatever a map has been through since nobody was on it, everybody has a public id below the
limit and no two have the same. Whoever comes gets the lowest number that nobody has; an entity that
may come is turned away exactly when there are as many entities as numbers, and then nothing
changes. Whoever leaves gives up its number, and whoever stays keeps it. -/
theorem allotment_of_becomes {id : MapId} {terrain : Terrain} {fixtures : List Fixture}
    {random : RandomStream} {limit : UInt16} {g : Region}
    (h : (vacant id terrain fixtures random limit).Becomes g) :
    (∀ k e, g.find? k = some e → ∃ x, e.publicId = some x ∧ x.val < limit ∧ x ≠ .nobody) ∧
    (∀ k k' e e', g.find? k = some e → g.find? k' = some e' → e.publicId = e'.publicId → k = k') ∧
    (∀ e x g', g.insert e = .ok (x, g') → g'.find? e.id = some { e with publicId := some x } ∧
      ¬ g.Uses x ∧ ∀ y, ¬ g.Uses y → x.val ≤ y.val) ∧
    (∀ e, e.publicId = none → g.contains e.id = false → g.terrain.contains e.position = true →
      (g.insert e = .error (.noPublicId e.id g.id) ↔ g.size = limit.toNat) ∧
      ((∃ x g', g.insert e = .ok (x, g')) ↔ g.size ≠ limit.toNat)) ∧
    (∀ e err, g.insert e = .error err → g.execute (.insert e) = g) ∧
    (∀ k e g', g.remove k = some (e, g') → e.publicId = none) ∧
    ∀ k e g', g.find? k = some e → Reaches execute (AdmitsStaying k) g g' →
      ∃ e', g'.find? k = some e' ∧ e'.publicId = e.publicId := by
  have hg : g.Allotted limit :=
    h.invariant (allotted_vacant id terrain fixtures random limit) fun _ c ht _ => ht.execute c
  refine ⟨fun k e hk => ?_, fun k k' e e' => hg.distinct, fun e x g' hins => ?_,
    fun e hid hnew hinside => ⟨?_, ?_⟩, fun e err herr => ?_, fun k e g' hrem => ?_,
    fun k e g' hk hreach => ?_⟩
  · obtain ⟨x, hx, hlt⟩ := hg.taken hk
    have hbound : limit ≤ PublicId.nobody.val :=
      UInt16.le_iff_toNat_le.mpr (Nat.le_of_lt_succ limit.toNat_lt)
    exact ⟨x, hx, hlt, PublicId.ne_nobody (UInt16.lt_of_lt_of_le hlt hbound)⟩
  · obtain ⟨⟨-, hunused⟩, hlowest⟩ := hg.lowest_of_insert hins
    exact ⟨(find?_insert hins e.id).trans (if_pos rfl), hunused, hlowest⟩
  · rw [insert_eq_noPublicId_iff hid hnew hinside, hg.take_eq_none_iff]
  · rw [exists_insert_eq_ok_iff hid hnew hinside, ne_eq, hg.take_eq_none_iff]
  · rw [Region.execute, herr]
    rfl
  · obtain ⟨e₀, -, rfl, -⟩ := remove_eq_some_iff.mp hrem
    rfl
  · refine hreach.invariant (P := fun t => ∃ e', t.find? k = some e' ∧ e'.publicId = e.publicId)
      ⟨e, hk, rfl⟩ fun t c hkept hstays => ?_
    obtain ⟨e₁, he₁, hsame⟩ := hkept
    rw [AdmitsStaying, contains_eq_isSome] at hstays
    obtain ⟨e₂, he₂⟩ := Option.isSome_iff_exists.mp hstays
    exact ⟨e₂, he₂, (publicId_execute he₁ he₂).trans hsame⟩

/-! ### An example -/

/-- A map with room for two, on which nobody is yet. -/
def cell : Region := vacant ⟨1⟩ (.clear 4 4) [] ⟨1, 2⟩ 2

/-- Two monsters have come there, the first has left, and another has come. -/
def crowd : Region :=
  [.insert (.monster (.nth 1) 7 ⟨1⟩ ⟨20, 20⟩), .insert (.monster (.nth 2) 7 ⟨1⟩ ⟨40, 20⟩),
    .remove (.nth 1), .insert (.monster (.nth 3) 7 ⟨1⟩ ⟨60, 20⟩)].foldl execute cell

/-- Both public ids are in use, and nobody else can come. -/
theorem allotment_at_crowd :
    crowd.insert (.npc (.nth 4) 5 ⟨1⟩ ⟨80, 20⟩) = .error (.noPublicId (.nth 4) ⟨1⟩) := by
  have hreach : cell.Becomes crowd := Reaches.foldl _ _ (by simp)
  have hnew : crowd.contains (.nth 4) = false := by cbv
  have hinside : crowd.terrain.contains ⟨80, 20⟩ = true := by cbv
  have hsize : crowd.size = 2 := by cbv
  have hid : crowd.id = ⟨1⟩ := by cbv
  obtain ⟨-, -, -, hcome, -⟩ := allotment_of_becomes hreach
  have hfull := (hcome (.npc (.nth 4) 5 ⟨1⟩ ⟨80, 20⟩) rfl hnew hinside).1.mpr hsize
  rwa [hid] at hfull

end Region

end TileWorld
