import Std.Data.ExtTreeMap
import Std.Data.ExtTreeSet

/-!
# Ordered tables

A table holds a value for each of finitely many keys, and whoever goes through it meets the keys
in ascending order. Two tables with the same look-ups are equal. A key type is anything with a
lawful total order; `ordBy` orders keys by a part that determines them, and
`lawfulEqCmp_compareOn` says that such an order is lawful.

Look-ups after an update are described by equality of keys, as in `Table.getElem?_insert`.

Besides the standard operations there is one pass, `Table.thread`, which changes all values in
ascending order of their keys and hands a state from each to the next. Its view as a list is
`toList_thread`.
-/

namespace TileWorld

open Std

/-- A finite map with ordered keys. -/
abbrev Table (κ : Type) [Ord κ] (α : Type) := ExtTreeMap κ α compare

/-- A finite set with ordered members. -/
abbrev OrderedSet (κ : Type) [Ord κ] := ExtTreeSet κ compare

/-! ### Key types -/

/-- Orders keys by a part that determines them. -/
@[reducible] def ordBy {κ β : Type} [Ord β] (f : κ → β) : Ord κ := ⟨compareOn f⟩

/-- Comparing by a property tells keys apart if no two of them have it in common. -/
theorem lawfulEqCmp_compareOn {κ β : Type} [Ord β] [LawfulEqOrd β] [TransOrd β] {f : κ → β}
    (hf : ∀ a b, f a = f b → a = b) : LawfulEqCmp (compareOn f) where
  compare_self := by simp [compareOn]
  eq_of_compare h := hf _ _ (Std.compare_eq_iff_eq.mp h)

/-! ### Look-ups -/

namespace Table

/-- Keys are told apart by comparing them. -/
theorem compare_eq_iff {κ : Type} [Ord κ] [LawfulEqOrd κ] {k a : κ} :
    compare k a = .eq ↔ a = k := by
  rw [Std.compare_eq_iff_eq, eq_comm]

variable {κ α : Type} [Ord κ] [TransOrd κ] [LawfulEqOrd κ]

theorem mem_insert {t : Table κ α} {k a : κ} {v : α} : a ∈ t.insert k v ↔ a = k ∨ a ∈ t := by
  rw [ExtTreeMap.mem_insert, compare_eq_iff]

theorem mem_erase {t : Table κ α} {k a : κ} : a ∈ t.erase k ↔ a ≠ k ∧ a ∈ t := by
  rw [ExtTreeMap.mem_erase, ne_eq, compare_eq_iff]

variable [DecidableEq κ]

theorem getElem?_insert (t : Table κ α) (k a : κ) (v : α) :
    (t.insert k v)[a]? = if a = k then some v else t[a]? := by
  simp only [ExtTreeMap.getElem?_insert, compare_eq_iff]

theorem getElem?_erase (t : Table κ α) (k a : κ) :
    (t.erase k)[a]? = if a = k then none else t[a]? := by
  simp only [ExtTreeMap.getElem?_erase, compare_eq_iff]

theorem getElem?_alter (t : Table κ α) (k a : κ) (f : Option α → Option α) :
    (t.alter k f)[a]? = if a = k then f t[a]? else t[a]? := by
  simp only [ExtTreeMap.getElem?_alter, compare_eq_iff]
  split <;> simp_all

theorem getElem?_modify (t : Table κ α) (k a : κ) (f : α → α) :
    (t.modify k f)[a]? = if a = k then t[a]?.map f else t[a]? := by
  simp only [ExtTreeMap.getElem?_modify, compare_eq_iff]
  split <;> simp_all

end Table

namespace OrderedSet

variable {κ : Type} [Ord κ] [TransOrd κ] [LawfulEqOrd κ]

theorem mem_insert {t : OrderedSet κ} {k a : κ} : a ∈ t.insert k ↔ a = k ∨ a ∈ t := by
  rw [ExtTreeSet.mem_insert, Table.compare_eq_iff]

theorem mem_erase {t : OrderedSet κ} {k a : κ} : a ∈ t.erase k ↔ a ≠ k ∧ a ∈ t := by
  rw [ExtTreeSet.mem_erase, ne_eq, Table.compare_eq_iff]

theorem mem_ofList {l : List κ} {a : κ} : a ∈ ExtTreeSet.ofList l compare ↔ a ∈ l := by
  classical
  rw [ExtTreeSet.mem_ofList, List.contains_iff_mem]

theorem mem_filter {t : OrderedSet κ} {f : κ → Bool} {a : κ} :
    a ∈ t.filter f ↔ a ∈ t ∧ f a = true := by
  rw [ExtTreeSet.mem_filter]
  simp [ExtTreeSet.get_eq]

end OrderedSet

/-! ### Lists with ascending keys -/

section Ascending

variable {κ α σ : Type}

/-- The keys of a list of pairs ascend. -/
def Ascending [Ord κ] (l : List (κ × α)) : Prop := l.Pairwise fun a b => compare a.1 b.1 = .lt

/-- The keys of an ascending list ascend. -/
theorem ascending_iff [Ord κ] {l : List (κ × α)} :
    Ascending l ↔ (l.map Prod.fst).Pairwise fun a b => compare a b = .lt := by
  rw [List.pairwise_map]; rfl

/-- A table lists its entries by ascending keys. -/
theorem ascending_toList [Ord κ] [TransOrd κ] (t : Table κ α) : Ascending t.toList :=
  ExtTreeMap.ordered_keys_toList

theorem Ascending.nodup [Ord κ] [TransOrd κ] {l : List (κ × α)} (h : Ascending l) : l.Nodup :=
  List.Pairwise.imp (fun {a b} hab hEq => by simp [hEq] at hab) h

/-- Two lists with ascending keys and the same members are equal. -/
theorem Ascending.eq_of_mem_iff [Ord κ] [TransOrd κ] {l l' : List (κ × α)} (h : Ascending l)
    (h' : Ascending l') (hm : ∀ p, p ∈ l ↔ p ∈ l') : l = l' := by
  have asymm : ∀ a b : κ × α, a ∈ l → b ∈ l' → compare a.1 b.1 = .lt → compare b.1 a.1 = .lt →
      a = b := fun _ _ _ _ hab hba => absurd hba (OrientedCmp.not_lt_of_lt hab)
  exact List.Perm.eq_of_pairwise asymm h h'
    ((List.perm_ext_iff_of_nodup h.nodup h'.nodup).mpr fun p => hm p)

/-- A list with ascending keys is the list of the table that it makes. -/
theorem toList_ofList_of_ascending [Ord κ] [TransOrd κ] [LawfulEqOrd κ] {l : List (κ × α)}
    (h : Ascending l) : (ExtTreeMap.ofList l compare).toList = l := by
  classical
  have hd : l.Pairwise fun a b => ¬ compare a.1 b.1 = .eq := h.imp (by simp_all)
  refine (ascending_toList _).eq_of_mem_iff h ?_
  rintro ⟨k, v⟩
  rw [ExtTreeMap.mem_toList_iff_getElem?_eq_some]
  constructor
  · intro hk
    have hmem : k ∈ ExtTreeMap.ofList l compare := by
      rw [ExtTreeMap.mem_iff_isSome_getElem?, hk]; rfl
    rw [ExtTreeMap.mem_ofList, List.contains_iff_mem] at hmem
    obtain ⟨⟨k', v'⟩, hmem', rfl⟩ := List.mem_map.mp hmem
    rw [ExtTreeMap.getElem?_ofList_of_mem ReflCmp.compare_self hd hmem'] at hk
    cases hk
    exact hmem'
  · exact fun hk => ExtTreeMap.getElem?_ofList_of_mem ReflCmp.compare_self hd hk

/-- Changes the values of a list of pairs from left to right, handing a state on. -/
def threadList (f : σ → α → α × σ) : σ → List (κ × α) → List (κ × α) × σ
  | s, [] => ([], s)
  | s, (k, v) :: rest =>
    let (v, s) := f s v
    let (rest, s) := threadList f s rest
    ((k, v) :: rest, s)

@[simp] theorem map_fst_threadList (f : σ → α → α × σ) (s : σ) (l : List (κ × α)) :
    (threadList f s l).1.map Prod.fst = l.map Prod.fst := by
  induction l generalizing s with
  | nil => rfl
  | cons p rest ih => simp [threadList, ih]

/-- An ascending list stays so when a state is passed through it. -/
theorem Ascending.threadList [Ord κ] (f : σ → α → α × σ) (s : σ) {l : List (κ × α)}
    (h : Ascending l) : Ascending (threadList f s l).1 := by
  rw [ascending_iff] at h ⊢
  rwa [map_fst_threadList]

variable [Ord κ] [TransOrd κ]

/-- Changes all values of a table in ascending order of their keys, handing a state on. -/
def Table.thread (f : σ → α → α × σ) (s : σ) (t : Table κ α) : Table κ α × σ :=
  let (l, s) := threadList f s t.toList
  (ExtTreeMap.ofList l compare, s)

/-- The pass over a table is the pass over its list. -/
theorem toList_thread [LawfulEqOrd κ] (f : σ → α → α × σ) (s : σ) (t : Table κ α) :
    (Table.thread f s t).1.toList = (threadList f s t.toList).1 :=
  toList_ofList_of_ascending ((ascending_toList t).threadList f s)

theorem snd_thread (f : σ → α → α × σ) (s : σ) (t : Table κ α) :
    (Table.thread f s t).2 = (threadList f s t.toList).2 := rfl

end Ascending

end TileWorld
