import Mathlib.Data.Fintype.Sum
import TileWorld.Entity.Id

/-!
# Other keys for the same table

A table or a set of keys under other names for the keys (`Table.rename`, `OrderedSet.rename`). If
the names are changed by a permutation, looking up a new name is looking up the old one
(`Table.getElem?_rename`), so that every operation on tables commutes with the change. The order in
which a table is gone through is kept only if the permutation keeps the order of the names in use
(`Table.toList_rename`).

What matters is only what becomes of the names in use, and those can be changed by any injection:
there is a permutation that does the same to them (`exists_perm_eqOn`). Identities are given out in
ascending order, and so those that two worlds have given out go together in their order if the next
ones do that both will give out (`Renumbers.extend`).
-/

namespace TileWorld

open Std

/-- On a set, the names come in the same order as before. -/
def KeepsOrder {κ : Type} [Ord κ] (f : κ → κ) (s : Set κ) : Prop :=
  ∀ a ∈ s, ∀ b ∈ s, compare a b = .lt → compare (f a) (f b) = .lt

section KeepsOrder

variable {κ : Type} [Ord κ] {f f' : κ → κ} {s s' : Set κ}

theorem KeepsOrder.mono (h : KeepsOrder f s) (hs : s' ⊆ s) : KeepsOrder f s' :=
  fun a ha b hb hlt => h a (hs ha) b (hs hb) hlt

theorem KeepsOrder.congr (h : KeepsOrder f s) (heq : s.EqOn f f') : KeepsOrder f' s := by
  intro a ha b hb hlt
  rw [← heq ha, ← heq hb]
  exact h a ha b hb hlt

/-- Names that keep their order stay apart. -/
theorem KeepsOrder.injOn [TransOrd κ] [LawfulEqOrd κ] (h : KeepsOrder f s) : s.InjOn f := by
  intro a ha b hb heq
  -- one of two different names comes first
  rcases hab : compare a b with _ | _ | _
  · have hlt := h a ha b hb hab
    simp [heq] at hlt
  · exact Std.compare_eq_iff_eq.mp hab
  · have hlt := h b hb a ha (OrientedCmp.lt_of_gt hab)
    simp [heq] at hlt

end KeepsOrder

/-- Whatever is done to the names in use, as long as it keeps different names different, is done by
a permutation of all names. -/
theorem exists_perm_eqOn {κ : Type} [Finite κ] {f : κ → κ} {s : Set κ} (h : s.InjOn f) :
    ∃ π : Equiv.Perm κ, s.EqOn f π := by
  have := Fintype.ofFinite κ
  obtain ⟨e, he⟩ := Set.MapsTo.exists_equiv_extend_of_card_eq (t := Finset.univ) Finset.card_univ.symm
    (fun a _ => Finset.mem_coe.mpr (Finset.mem_univ (f a))) h
  exact ⟨e.trans (Equiv.subtypeUnivEquiv Finset.mem_univ), fun a ha => (he a ha).symm⟩

namespace Table

variable {κ α β : Type} [Ord κ] [TransOrd κ] [LawfulEqOrd κ]

theorem mem_of_mem_toList {t : Table κ α} {p : κ × α} (h : p ∈ t.toList) : p.1 ∈ t := by
  rw [ExtTreeMap.mem_iff_isSome_getElem?, ExtTreeMap.mem_toList_iff_getElem?_eq_some.mp h]
  rfl

/-- The values of a table under other names. -/
def rename (f : κ → κ) (t : Table κ α) : Table κ α :=
  ExtTreeMap.ofList (t.toList.map fun p => (f p.1, p.2)) compare

/-- Only the names of those in the table matter. -/
theorem rename_congr {f f' : κ → κ} {t : Table κ α} (h : ∀ k ∈ t, f k = f' k) :
    rename f t = rename f' t := by
  rw [rename, rename]
  congr 1
  refine List.map_congr_left fun p hp => ?_
  rw [h p.1 (mem_of_mem_toList hp)]

theorem mem_rename_of_mem (f : κ → κ) {t : Table κ α} {k : κ} (h : k ∈ t) : f k ∈ rename f t := by
  classical
  rw [rename, ExtTreeMap.mem_ofList, List.contains_iff_mem, List.map_map]
  obtain ⟨v, hv⟩ := Option.isSome_iff_exists.mp (ExtTreeMap.mem_iff_isSome_getElem?.mp h)
  exact List.mem_map.mpr ⟨(k, v), ExtTreeMap.mem_toList_iff_getElem?_eq_some.mpr hv, rfl⟩

/-- If the order of the names is kept, the values come in the same order. -/
theorem toList_rename {f : κ → κ} {t : Table κ α} (h : KeepsOrder f {k | k ∈ t}) :
    (rename f t).toList = t.toList.map fun p => (f p.1, p.2) := by
  refine toList_ofList_of_ascending ?_
  rw [Ascending, List.pairwise_map]
  refine (ascending_toList t).imp_of_mem fun {p q} hp hq hlt => ?_
  exact h p.1 (mem_of_mem_toList hp) q.1 (mem_of_mem_toList hq) hlt

variable [DecidableEq κ] (π : Equiv.Perm κ) (t : Table κ α)

/-- To look up a new name is to look up the old one. -/
theorem getElem?_rename (k : κ) : (rename π t)[k]? = t[π.symm k]? := by
  have hdistinct : (t.toList.map fun p => (π p.1, p.2)).Pairwise
      fun a b => ¬ compare a.1 b.1 = .eq := by
    rw [List.pairwise_map]
    refine (ascending_toList t).imp fun {p q} hlt heq => ?_
    rw [π.injective (Std.compare_eq_iff_eq.mp heq)] at hlt
    simp at hlt
  rcases hk : t[π.symm k]? with _ | v
  · refine ExtTreeMap.getElem?_ofList_of_contains_eq_false ?_
    rw [List.map_map, List.contains_eq_mem, decide_eq_false_iff_not, List.mem_map]
    rintro ⟨⟨k', v⟩, hmem, rfl⟩
    rw [ExtTreeMap.mem_toList_iff_getElem?_eq_some] at hmem
    simp [hmem] at hk
  · have hmem : (π.symm k, v) ∈ t.toList := ExtTreeMap.mem_toList_iff_getElem?_eq_some.mpr hk
    refine ExtTreeMap.getElem?_ofList_of_mem (Std.compare_eq_iff_eq.mpr rfl) hdistinct ?_
    exact List.mem_map.mpr ⟨_, hmem, by simp⟩

/-- Under its new name one finds what was there under the old one. -/
theorem getElem?_rename_apply (k : κ) : (rename π t)[π k]? = t[k]? := by
  rw [getElem?_rename, Equiv.symm_apply_apply]

theorem rename_insert (k : κ) (v : α) :
    rename π (t.insert k v) = (rename π t).insert (π k) v := by
  refine ExtTreeMap.ext_getElem? fun a => ?_
  simp only [getElem?_rename, getElem?_insert, Equiv.symm_apply_eq]

theorem rename_erase (k : κ) : rename π (t.erase k) = (rename π t).erase (π k) := by
  refine ExtTreeMap.ext_getElem? fun a => ?_
  simp only [getElem?_rename, getElem?_erase, Equiv.symm_apply_eq]

end Table

namespace OrderedSet

variable {κ : Type} [Ord κ] [TransOrd κ] [LawfulEqOrd κ]

/-- A set of other names. -/
def rename (f : κ → κ) (s : OrderedSet κ) : OrderedSet κ :=
  ExtTreeSet.ofList (s.toList.map f) compare

theorem rename_congr {f f' : κ → κ} {s : OrderedSet κ} (h : ∀ k ∈ s, f k = f' k) :
    rename f s = rename f' s := by
  rw [rename, rename]
  congr 1
  exact List.map_congr_left fun k hk => h k (ExtTreeSet.mem_toList.mp hk)

theorem mem_rename_of_mem (f : κ → κ) {s : OrderedSet κ} {k : κ} (h : k ∈ s) : f k ∈ rename f s := by
  rw [rename, mem_ofList]
  exact List.mem_map_of_mem (ExtTreeSet.mem_toList.mpr h)

variable (π : Equiv.Perm κ) (s : OrderedSet κ)

theorem mem_rename (k : κ) : k ∈ rename π s ↔ π.symm k ∈ s := by
  simp only [rename, mem_ofList, List.mem_map, ExtTreeSet.mem_toList]
  constructor
  · rintro ⟨a, ha, rfl⟩
    rwa [Equiv.symm_apply_apply]
  · exact fun hk => ⟨_, hk, Equiv.apply_symm_apply π k⟩

theorem rename_empty : rename π (∅ : OrderedSet κ) = ∅ :=
  ExtTreeSet.ext_mem fun k => by simp [mem_rename]

theorem rename_insert (k : κ) : rename π (s.insert k) = (rename π s).insert (π k) :=
  ExtTreeSet.ext_mem fun a => by simp only [mem_rename, mem_insert, Equiv.symm_apply_eq]

theorem rename_erase (k : κ) : rename π (s.erase k) = (rename π s).erase (π k) :=
  ExtTreeSet.ext_mem fun a => by simp only [mem_rename, mem_erase, ne_eq, Equiv.symm_apply_eq]

theorem rename_filter {p q : κ → Bool} (h : ∀ k, q (π k) = p k) :
    rename π (s.filter p) = (rename π s).filter q :=
  ExtTreeSet.ext_mem fun a => by
    rw [mem_rename, mem_filter, mem_filter, mem_rename, ← h, Equiv.apply_symm_apply]

theorem size_rename : (rename π s).size = s.size := by
  have hdistinct : (s.toList.map π).Pairwise fun a b => ¬ compare a b = .eq := by
    rw [List.pairwise_map]
    refine ExtTreeSet.ordered_toList.imp fun {a b} hlt heq => ?_
    rw [π.injective (Std.compare_eq_iff_eq.mp heq)] at hlt
    simp at hlt
  rw [rename, ExtTreeSet.size_ofList hdistinct, List.length_map, ExtTreeSet.length_toList]

theorem isEmpty_rename : (rename π s).isEmpty = s.isEmpty := by
  rw [ExtTreeSet.isEmpty_eq_size_beq_zero, ExtTreeSet.isEmpty_eq_size_beq_zero, size_rename]

end OrderedSet

/-! ### Identities that are given out -/

namespace EntityId

/-- As long as identities do not come round, the `n`-th one has the number `n`. -/
theorem toNat_nth {n : Nat} (hn : n < UInt32.size) : (nth n).val.toNat = n := by
  rw [nth, UInt32.toNat_ofNat']
  exact Nat.mod_eq_of_lt hn

theorem compare_eq_lt_iff {a b : EntityId} : compare a b = .lt ↔ a.val.toNat < b.val.toNat := by
  rw [← UInt32.lt_iff_toNat_lt]
  exact Std.compare_eq_lt (a := a.val)

instance : Finite EntityId :=
  Finite.of_injective (fun id => id.val.toFin) fun ⟨_⟩ ⟨_⟩ h => congrArg _ (UInt32.toFin_inj.mp h)

end EntityId

/-- From the `n`-th identity on in the one world and the `n'`-th in the other, identities go together
that are given out one after the other. -/
def Shifts (f : EntityId → EntityId) (n n' : Nat) : Prop :=
  ∀ j, 0 < j → n + j < UInt32.size → n' + j < UInt32.size → f (.nth (n + j)) = .nth (n' + j)

/-- The identities that are given out after the `n`-th, up to the `m`-th. -/
def given (n m : Nat) : Set EntityId := {a | ∃ i, n < i ∧ i ≤ m ∧ a = .nth i}

theorem given_mono {n n' m m' : Nat} (hn : n' ≤ n) (hm : m ≤ m') : given n m ⊆ given n' m' :=
  fun _ ⟨i, hi, hle, heq⟩ => ⟨i, Nat.lt_of_le_of_lt hn hi, Nat.le_trans hle hm, heq⟩

/-- Some of the first `n` identities are renamed in their order to some of the first `n'`. -/
structure Renumbers (f : EntityId → EntityId) (s : Set EntityId) (n n' : Nat) : Prop where
  order : KeepsOrder f s
  le : ∀ a ∈ s, a.val.toNat ≤ n
  le' : ∀ a ∈ s, (f a).val.toNat ≤ n'

theorem Renumbers.mono {f : EntityId → EntityId} {s : Set EntityId} {n n' m m' : Nat}
    (h : Renumbers f s n n') (hm : n ≤ m) (hm' : n' ≤ m') : Renumbers f s m m' :=
  ⟨h.order, fun a ha => Nat.le_trans (h.le a ha) hm, fun a ha => Nat.le_trans (h.le' a ha) hm'⟩

/-- The first `n` identities are renamed as given, and later ones in step with those that come after
the `n'`-th: the next one to the next one, and so on. -/
def EntityId.carry (f : EntityId → EntityId) (n n' : Nat) (a : EntityId) : EntityId :=
  if a.val.toNat ≤ n then f a else .nth (n' + (a.val.toNat - n))

/-- The identities after the `n`-th, as long as neither they nor those after the `n'`-th come round. -/
def upcoming (n n' : Nat) : Set EntityId :=
  {a | ∃ i, 0 < i ∧ n + i < UInt32.size ∧ n' + i < UInt32.size ∧ a = .nth (n + i)}

section Carry

variable {f : EntityId → EntityId} {s : Set EntityId} {n n' : Nat}

theorem given_subset_upcoming {j : Nat} (hlt : n + j < UInt32.size) (hlt' : n' + j < UInt32.size) :
    given n (n + j) ⊆ upcoming n n' := by
  rintro a ⟨_, hi, hij, rfl⟩
  obtain ⟨i, rfl⟩ := Nat.exists_eq_add_of_lt hi
  exact ⟨i + 1, Nat.succ_pos i, by omega, by omega, rfl⟩

/-- Identities that are given out later keep in step. -/
theorem EntityId.carry_nth {i : Nat} (hi : 0 < i) (hlt : n + i < UInt32.size) :
    carry f n n' (.nth (n + i)) = .nth (n' + i) := by
  rw [carry, toNat_nth hlt, if_neg (by omega), Nat.add_sub_cancel_left]

/-- Names that have been fixed stay as they are when others are carried on. -/
theorem Renumbers.carry_eq (h : Renumbers f s n n') {a : EntityId} (ha : a ∈ s) :
    EntityId.carry f n n' a = f a :=
  if_pos (h.le a ha)

/-- Whoever comes later gets a later identity in both worlds. -/
theorem Renumbers.keepsOrder_carry (h : Renumbers f s n n') :
    KeepsOrder (EntityId.carry f n n') (s ∪ upcoming n n') := by
  rintro a (ha | ⟨i, hi, hlt, hlt', rfl⟩) b (hb | ⟨j, hj, hlt₁, hlt₁', rfl⟩) hab
  · rw [h.carry_eq ha, h.carry_eq hb]
    exact h.order a ha b hb hab
  · have hle := h.le' a ha
    rw [h.carry_eq ha, EntityId.carry_nth hj hlt₁, EntityId.compare_eq_lt_iff,
      EntityId.toNat_nth hlt₁']
    omega
  · have hle := h.le b hb
    rw [EntityId.compare_eq_lt_iff, EntityId.toNat_nth hlt] at hab
    omega
  · rw [EntityId.compare_eq_lt_iff, EntityId.toNat_nth hlt, EntityId.toNat_nth hlt₁] at hab
    rw [EntityId.carry_nth hi hlt, EntityId.carry_nth hj hlt₁, EntityId.compare_eq_lt_iff,
      EntityId.toNat_nth hlt', EntityId.toNat_nth hlt₁']
    omega

/-- The identities that come next can be renamed along with those that were given out: the first to
the first, the second to the second, and so on. -/
theorem Renumbers.extend (h : Renumbers f s n n') :
    ∃ π : Equiv.Perm EntityId, s.EqOn f π ∧ Shifts π n n' ∧
      ∀ j, n + j < UInt32.size → n' + j < UInt32.size →
        Renumbers π (s ∪ given n (n + j)) (n + j) (n' + j) := by
  obtain ⟨π, hπ⟩ := exists_perm_eqOn h.keepsOrder_carry.injOn
  have hold : s.EqOn f π := fun a ha => (h.carry_eq ha).symm.trans (hπ (.inl ha))
  have hshifts : Shifts π n n' := fun j hj hlt hlt' =>
    (hπ (.inr ⟨j, hj, hlt, hlt', rfl⟩)).symm.trans (EntityId.carry_nth hj hlt)
  refine ⟨π, hold, hshifts, fun j hlt hlt' => ⟨?_, ?_, ?_⟩⟩
  · exact (h.keepsOrder_carry.congr hπ).mono
      (Set.union_subset_union_right s (given_subset_upcoming hlt hlt'))
  · rintro a (ha | ⟨i, hi, hij, rfl⟩)
    · exact Nat.le_add_right_of_le (h.le a ha)
    · rw [EntityId.toNat_nth (by omega)]
      exact hij
  · rintro a (ha | ⟨_, hi, hij, rfl⟩)
    · rw [← hold ha]
      exact Nat.le_add_right_of_le (h.le' a ha)
    · obtain ⟨i, rfl⟩ := Nat.exists_eq_add_of_lt hi
      have hname := hshifts (i + 1) (Nat.succ_pos i) (by omega) (by omega)
      rw [← Nat.add_assoc] at hname
      rw [hname, EntityId.toNat_nth (by omega)]
      omega

end Carry

end TileWorld
