import Mathlib.Data.List.Dedup
import Mathlib.Data.List.Induction
import TileWorld.Catalog.Basic

/-!
# What a catalog serves

A catalog serves exactly what its document says. Entries are kept by number and records by name, and of
those with the same key the last one counts (`Table.getElem?_ofEntries`). The plan of a map shows its
entry as it is: on the map one can stand wherever the tile is not listed as blocked, however often a tile
is listed and whatever tiles outside the map are listed too (`Terrain.isWalkable_blockAll`).
-/

namespace TileWorld

open Std

/-! ### The last entry with a key -/

section Last

variable {κ α : Type} {key : α → κ} {k : κ} {l : List α} {a b : α}

/-- The last member of a list among those with a key. -/
def IsLast (key : α → κ) (k : κ) (l : List α) (a : α) : Prop :=
  ∃ before after, l = before ++ a :: after ∧ key a = k ∧ ∀ b ∈ after, key b ≠ k

theorem IsLast.key_eq (h : IsLast key k l a) : key a = k := by
  obtain ⟨-, -, -, hkey, -⟩ := h
  exact hkey

/-- One more entry at the end comes to be the last one with its key, and no other key is concerned. -/
theorem isLast_concat_iff : IsLast key k (l ++ [b]) a ↔
    (key b = k ∧ a = b) ∨ (key b ≠ k ∧ IsLast key k l a) := by
  constructor
  · rintro ⟨before, after, hl, hkey, hafter⟩
    rcases List.eq_nil_or_concat after with rfl | ⟨after', c, rfl⟩
    · obtain ⟨-, rfl⟩ := List.append_singleton_inj.mp hl
      exact .inl ⟨hkey, rfl⟩
    · rw [List.concat_eq_append, ← List.cons_append, ← List.append_assoc] at hl
      obtain ⟨rfl, rfl⟩ := List.append_singleton_inj.mp hl
      exact .inr ⟨hafter _ (by simp), before, after', rfl, hkey, fun d hd => hafter d (by simp [hd])⟩
  · rintro (⟨hkey, rfl⟩ | ⟨hne, before, after, rfl, hkey, hafter⟩)
    · exact ⟨l, [], rfl, hkey, by simp⟩
    · refine ⟨before, after ++ [b], by simp, hkey, fun d hd => ?_⟩
      rcases List.mem_append.mp hd with hd | hd
      · exact hafter d hd
      · rwa [List.mem_singleton.mp hd]

namespace Table

variable [Ord κ] [TransOrd κ]

/-- The table of the entries of a list, put in from left to right. -/
def ofEntries (key : α → κ) (l : List α) : Table κ α := l.foldl (fun t a => t.insert (key a) a) ∅

/-- An entry that comes later takes the place of one with the same key. -/
theorem ofEntries_concat (key : α → κ) (l : List α) (b : α) :
    ofEntries key (l ++ [b]) = (ofEntries key l).insert (key b) b := by
  simp [ofEntries, List.foldl_append]

variable [LawfulEqOrd κ]

/-- The last entry with a key counts. -/
theorem getElem?_ofEntries [DecidableEq κ] : (ofEntries key l)[k]? = some a ↔ IsLast key k l a := by
  induction l using List.reverseRecOn with
  | nil => simp [ofEntries, IsLast]
  | append_singleton l b ih =>
    rw [ofEntries_concat, getElem?_insert, isLast_concat_iff, ← ih]
    by_cases h : k = key b
    · simp [h, eq_comm]
    · simp [h, Ne.symm h]

theorem mem_ofEntries : k ∈ ofEntries key l ↔ k ∈ l.map key := by
  induction l using List.reverseRecOn with
  | nil => simp [ofEntries]
  | append_singleton l b ih =>
    rw [ofEntries_concat, mem_insert, ih, List.map_append, List.mem_append, or_comm]
    simp

theorem isSome_getElem?_ofEntries :
    (ofEntries key l)[k]?.isSome = true ↔ ∃ a ∈ l, key a = k := by
  rw [← ExtTreeMap.mem_iff_isSome_getElem?, mem_ofEntries, List.mem_map]

/-- There are as many entries in the table as different keys in the list. -/
theorem size_ofEntries [DecidableEq κ] : (ofEntries key l).size = (l.map key).dedup.length := by
  have hperm : (ofEntries key l).keys.Perm (l.map key).dedup := by
    refine (List.perm_ext_iff_of_nodup ExtTreeMap.nodup_keys (List.nodup_dedup _)).mpr fun k => ?_
    rw [ExtTreeMap.mem_keys, mem_ofEntries, List.mem_dedup]
  rw [← ExtTreeMap.length_keys, hperm.length_eq]

end Table

end Last

/-! ### Blocked tiles -/

namespace Terrain

variable {t : Terrain} {p : Point}

theorem isWalkable_clear {w h : UInt16} :
    (clear w h).isWalkable p = true ↔ (clear w h).contains p = true := by
  refine ⟨contains_of_isWalkable, fun hin => ?_⟩
  rw [contains_eq_hasTile] at hin
  exact isWalkable_iff.mpr ⟨_, if_pos hin, ExtTreeSet.not_mem_empty⟩

@[simp] theorem index?_block (c : Tile) : (t.block c).index? = t.index? := by
  unfold block
  split <;> rfl

@[simp] theorem contains_block (c : Tile) : (t.block c).contains = t.contains := by
  unfold block
  split <;> rfl

/-- A blocked tile is the only one that is blocked. -/
theorem isWalkable_block {c : Tile} :
    (t.block c).isWalkable p = true ↔ t.isWalkable p = true ∧ p.tile ≠ c := by
  rw [isWalkable_iff, isWalkable_iff, index?_block]
  rcases hc : t.index? c with _ | i
  · have hsame : t.block c = t := by rw [block, hc]
    rw [hsame]
    refine ⟨fun ⟨j, hj, hfree⟩ => ⟨⟨j, hj, hfree⟩, ?_⟩, And.left⟩
    rintro rfl
    rw [hc] at hj
    exact nomatch hj
  · have hblocked : (t.block c).blocked = t.blocked.insert i := by rw [block, hc]
    simp only [hblocked, OrderedSet.mem_insert, not_or]
    constructor
    · rintro ⟨j, hj, hne, hfree⟩
      refine ⟨⟨j, hj, hfree⟩, ?_⟩
      rintro rfl
      exact hne (Option.some.inj (hj.symm.trans hc))
    · rintro ⟨⟨j, hj, hfree⟩, hne⟩
      refine ⟨j, hj, ?_, hfree⟩
      rintro rfl
      exact hne (index?_inj hj hc)

/-- Blocking tiles takes them away from where one can stand. -/
theorem isWalkable_blockAll {cs : List Tile} :
    (t.blockAll cs).isWalkable p = true ↔ t.isWalkable p = true ∧ p.tile ∉ cs := by
  induction cs generalizing t with
  | nil => simp [blockAll]
  | cons c cs ih =>
    rw [blockAll, List.foldl_cons, ← blockAll, ih, isWalkable_block, List.mem_cons, not_or, and_assoc]

theorem contains_blockAll (cs : List Tile) : (t.blockAll cs).contains = t.contains := by
  induction cs generalizing t with
  | nil => rfl
  | cons c cs ih => rw [blockAll, List.foldl_cons, ← blockAll, ih, contains_block]

end Terrain

/-! ### Plans -/

/-- A point lies on the map of an entry. -/
def MapEntry.Covers (m : MapEntry) (p : Point) : Prop :=
  p.x.toNat < m.width.toNat * tileSize.toNat ∧ p.y.toNat < m.height.toNat * tileSize.toNat

instance (m : MapEntry) (p : Point) : Decidable (m.Covers p) := inferInstanceAs (Decidable (_ ∧ _))

/-- A plan shows what an entry says. -/
structure MapPlan.Shows (plan : MapPlan) (m : MapEntry) : Prop where
  contains_iff (p : Point) : plan.terrain.contains p = true ↔ m.Covers p
  isWalkable_iff (p : Point) :
    plan.terrain.isWalkable p = true ↔ m.Covers p ∧ p.tile ∉ m.blocked
  /-- Blocking one more tile makes no difference on the others. -/
  isWalkable_block (c : Tile) (p : Point) : p.tile ≠ c →
    (plan.terrain.block c).isWalkable p = plan.terrain.isWalkable p
  fixtures_eq : plan.fixtures = m.gates.map Fixture.gate ++ m.spawns.map Fixture.spawn

/-- The plan of an entry shows what the entry says. -/
theorem MapEntry.shows_plan (m : MapEntry) : m.plan.Shows m := by
  have hclear (p : Point) :
      (Terrain.clear m.width m.height).contains p = true ↔ m.Covers p := by
    rw [Terrain.contains, Bool.and_eq_true, decide_eq_true_iff, decide_eq_true_iff]
    rfl
  refine ⟨fun p => ?_, fun p => ?_, fun c p hne => ?_, rfl⟩
  · rw [plan, Terrain.contains_blockAll, hclear]
  · rw [plan, Terrain.isWalkable_blockAll, Terrain.isWalkable_clear, hclear]
  · rw [Bool.eq_iff_iff, Terrain.isWalkable_block]
    exact and_iff_left hne

/-! ### Catalogs -/

namespace Catalog

/-- Of the records with the name of a character the last one counts. -/
theorem character_ofDocument_iff {d : CatalogDocument} {name : String} {r : CharacterRecord} :
    (ofDocument d).atlas.character name = some r ↔
      IsLast (fun c : CharacterRecord => c.looks.name) name d.characters r :=
  Table.getElem?_ofEntries

/-- A catalog serves exactly its document. There are a plan and a name of a map if the document has an
entry for it, and both are those of the last such entry; there are as many maps as different numbers;
and the record of a character is the last one with its name. -/
theorem serves_document (d : CatalogDocument) :
    (∀ id, ((ofDocument d).atlas.plan id).isSome = true ↔ ∃ m ∈ d.maps, m.id = id) ∧
    (∀ id, ((ofDocument d).atlas.mapName id).isSome = true ↔ ∃ m ∈ d.maps, m.id = id) ∧
    (∀ id plan, (ofDocument d).atlas.plan id = some plan →
      ∃ m, IsLast MapEntry.id id d.maps m ∧ (ofDocument d).atlas.mapName id = some m.name ∧
        plan.Shows m) ∧
    (ofDocument d).size = (d.maps.map MapEntry.id).dedup.length ∧
    (∀ name r, (ofDocument d).atlas.character name = some r ↔
      IsLast (fun c : CharacterRecord => c.looks.name) name d.characters r) ∧
    ∀ name r, (ofDocument d).atlas.character name = some r → r.looks.name = name := by
  have hmaps : (ofDocument d).maps = Table.ofEntries MapEntry.id d.maps := rfl
  refine ⟨fun id => ?_, fun id => ?_, fun id plan hplan => ?_, Table.size_ofEntries,
    fun name r => character_ofDocument_iff,
    fun name r hr => (character_ofDocument_iff.mp hr).key_eq⟩
  · rw [atlas, Option.isSome_map, hmaps, Table.isSome_getElem?_ofEntries]
  · rw [atlas, Option.isSome_map, hmaps, Table.isSome_getElem?_ofEntries]
  · obtain ⟨m, hm, rfl⟩ := Option.map_eq_some_iff.mp hplan
    exact ⟨m, Table.getElem?_ofEntries.mp hm, congrArg (Option.map MapEntry.name) hm, m.shows_plan⟩

/-- A document with two entries for map 7, of which the second lists a tile twice and a tile outside
the map, and with two records of the same name. -/
theorem serves_document_of_repeated_entries :
    let old : MapEntry := { id := ⟨7⟩, name := "Old Town", width := 5, height := 5 }
    let new : MapEntry :=
      { id := ⟨7⟩, name := "New Town", width := 2, height := 3, blocked := [⟨1, 0⟩, ⟨1, 0⟩, ⟨3, 1⟩] }
    let ann : CharacterRecord := { looks := { name := "Ann" }, map := ⟨7⟩, position := ⟨0, 0⟩ }
    let d : CatalogDocument :=
      { maps := [old, new], characters := [ann, { ann with position := ⟨9, 9⟩ }] }
    (ofDocument d).size = 1 ∧ (ofDocument d).atlas.mapName ⟨7⟩ = some "New Town" ∧
      (ofDocument d).atlas.character "Ann" = some { ann with position := ⟨9, 9⟩ } ∧
      ∃ plan, (ofDocument d).atlas.plan ⟨7⟩ = some plan ∧ plan.terrain.isWalkable ⟨40, 5⟩ = false ∧
        plan.terrain.isWalkable ⟨5, 40⟩ = true ∧ plan.terrain.isWalkable ⟨5, 96⟩ = false := by
  intro old new ann d
  obtain ⟨hplan, -, hlast, hsize, hcharacter, -⟩ := serves_document d
  obtain ⟨plan, hp⟩ := Option.isSome_iff_exists.mp ((hplan ⟨7⟩).mpr ⟨new, by simp [d], rfl⟩)
  obtain ⟨m, hm, hnamed, hshows⟩ := hlast _ _ hp
  obtain rfl : m = new := by
    obtain ⟨-, h⟩ | ⟨h, -⟩ := (isLast_concat_iff (l := [old])).mp hm
    · exact h
    · exact absurd rfl h
  refine ⟨hsize, hnamed, (hcharacter _ _).mpr ⟨[ann], [], rfl, rfl, by simp⟩, plan, hp, ?_⟩
  simp only [← Bool.not_eq_true, hshows.isWalkable_iff]
  exact ⟨by decide, by decide, by decide⟩

end Catalog

end TileWorld
