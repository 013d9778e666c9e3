import Mathlib
import TileWorld.Proofs.Region.History
import TileWorld.Proofs.Region.Index

/-!
# Looking for somebody

A region is searched through its index of zones, and the index is brought up to date only now and
then and only where somebody's zones are different from what they were. Whatever a region has been
through, nobody is filed who is not on it (`Region.Orderly.execute`), so that filing everybody anew
makes the index what it would be had it been built from nothing. It then stays so while entities at
rest come and others leave. At such a moment every question about nearness has the answer that
looking at everybody would give: `Region.searches_eq_scans_of_reaches`.
-/

namespace TileWorld

open Std

namespace ZoneIndex

variable {zones : Table Zone (OrderedSet EntityId)} {x y : ZoneIndex}

/-! ### The form of an index -/

/-- No zone is listed without entities. -/
def Tidy (zones : Table Zone (OrderedSet EntityId)) : Prop :=
  ∀ (z : Zone) (ids : OrderedSet EntityId), zones[z]? = some ids → ids ≠ ∅

theorem tidy_addTo (h : Tidy zones) (z : Zone) (id : EntityId) : Tidy (addTo zones z id) := by
  intro z' ids hids
  rw [addTo, Table.getElem?_alter] at hids
  split at hids
  · cases hids
    intro hempty
    have hmem : id ∈ (zones[z']?.getD ∅).insert id := OrderedSet.mem_insert.mpr (.inl rfl)
    rw [hempty] at hmem
    exact ExtTreeSet.not_mem_empty hmem
  · exact h _ _ hids

theorem tidy_dropFrom (h : Tidy zones) (z : Zone) (id : EntityId) : Tidy (dropFrom zones z id) := by
  intro z' ids hids
  rw [dropFrom, Table.getElem?_alter] at hids
  split at hids
  · dsimp only at hids
    split at hids
    · cases hids
    · cases hids
      rename_i hne
      exact fun hempty => hne (ExtTreeSet.isEmpty_iff.mpr hempty)
  · exact h _ _ hids

theorem tidy_erase (h : Tidy x.zones) (id : EntityId) : Tidy (x.erase id).zones := by
  rw [erase]
  split
  · exact h
  · exact tidy_dropFrom (tidy_dropFrom h _ id) _ id

theorem tidy_file (h : Tidy x.zones) (id : EntityId) (a b : Zone) :
    Tidy (x.file id a b).zones := by
  rw [file]
  split
  · exact h
  · exact tidy_addTo (tidy_addTo (tidy_erase h id) a id) b id

theorem tidy_ofTerrain (t : Terrain) : Tidy (ofTerrain t).zones := by
  intro z ids hids
  simp [ofTerrain] at hids

/-- Who is filed where determines an index. -/
theorem eq_of_filed_eq (hx : x.Coherent) (hy : y.Coherent) (hx' : Tidy x.zones) (hy' : Tidy y.zones)
    (hcol : x.lastCol = y.lastCol) (hrow : x.lastRow = y.lastRow)
    (hfiled : ∀ k : EntityId, x.filed[k]? = y.filed[k]?) : x = y := by
  have hentities (z : Zone) : x.entitiesOf z = y.entitiesOf z := by
    refine ExtTreeSet.ext_mem fun id => ?_
    rw [hx, hy, hfiled]
  have hzones : x.zones = y.zones := by
    refine ExtTreeMap.ext_getElem? fun z => ?_
    have hz := hentities z
    rw [entitiesOf, entitiesOf] at hz
    rcases hxz : x.zones[z]? with _ | ids <;> rcases hyz : y.zones[z]? with _ | ids' <;>
      rw [hxz, hyz] at hz
    · exact absurd hz.symm (hy' _ _ hyz)
    · exact absurd hz (hx' _ _ hxz)
    · exact congrArg some hz
  have htable : x.filed = y.filed := ExtTreeMap.ext_getElem? hfiled
  cases x
  cases y
  simp_all

end ZoneIndex

namespace Region

open ZoneIndex

variable {g g' : Region}

/-! ### An index that may be out of date -/

/-- Filing everybody anew keeps what filing one entity keeps. -/
theorem index_refile_of_file {P : ZoneIndex → Prop} (hg : P g.index)
    (hfile : ∀ x id a b, P x → P (x.file id a b)) : P g.refile.index := by
  have hindex : g.refile.index = g.members.toList.foldl (fun x p =>
      x.file p.1 (x.zoneOf p.2.oldPosition) (x.zoneOf p.2.position)) g.index :=
    ExtTreeMap.foldl_eq_foldl_toList
  rw [hindex]
  exact List.foldlRecOn _ _ hg fun x hx p _ => hfile x p.1 _ _ hx

/-- Everybody is where it should be, and nobody is filed who is not here. Those who are here may be
filed under zones where they are no more. -/
structure Orderly (g : Region) : Prop extends g.Within where
  coherent : g.index.Coherent
  tidy : Tidy g.index.zones
  lastCol : g.index.lastCol = (ofTerrain g.terrain).lastCol
  lastRow : g.index.lastRow = (ofTerrain g.terrain).lastRow
  absent : ∀ {k}, g.find? k = none → g.index.filed[k]? = none

theorem orderly_vacant (id : MapId) (terrain : Terrain) (fixtures : List Fixture)
    (random : RandomStream) (limit : UInt16) :
    (vacant id terrain fixtures random limit).Orderly where
  id_eq h := absurd ((find?_vacant ..).symm.trans h) (by simp)
  inside h := absurd ((find?_vacant ..).symm.trans h) (by simp)
  coherent := coherent_ofTerrain terrain
  tidy := tidy_ofTerrain terrain
  lastCol := rfl
  lastRow := rfl
  absent _ := ExtTreeMap.getElem?_empty

/-- After everybody has been filed anew, the index is up to date. -/
theorem Orderly.indexed_refile (hg : g.Orderly) : g.refile.Indexed :=
  Region.indexed_refile hg.coherent hg.lastCol hg.lastRow fun _ => hg.absent

/-- Whoever is not here is not filed. -/
theorem Indexed.absent (hg : g.Indexed) {k : EntityId} (h : g.find? k = none) :
    g.index.filed[k]? = none := by
  rw [hg.filed, h, Option.map_none]

/-- Everybody is on the map after somebody has come who is at a standstill. -/
theorem Within.insert {e : Entity} {x : PublicId} (hg : g.Within) (h : g.insert e = .ok (x, g'))
    (hrest : e.oldPosition = e.position) : g'.Within := by
  have hfind := find?_insert h
  obtain ⟨-, -, hinside, publicIds, -, rfl⟩ := insert_eq_ok_iff.mp h
  refine ⟨fun {k e'} hk => ?_, fun {k e'} hk => ?_⟩ <;> rw [hfind] at hk <;> split at hk
  · rename_i hid
    cases hk
    exact hid.symm
  · exact hg.id_eq hk
  · cases hk
    exact ⟨hinside, by rw [hrest]; exact hinside⟩
  · exact hg.inside hk

theorem Within.remove {id : EntityId} {e : Entity} (hg : g.Within) (h : g.remove id = some (e, g')) :
    g'.Within := by
  have hfind {k e'} (hk : g'.find? k = some e') : g.find? k = some e' := (find?_of_remove h hk).2
  obtain ⟨e₀, -, -, rfl⟩ := remove_eq_some_iff.mp h
  exact ⟨fun hk => hg.id_eq (hfind hk), fun hk => hg.inside (hfind hk)⟩

/-- Everybody stays on the map. -/
theorem Within.goesOn (hg : g.Within) (h : g.GoesOn g') : g'.Within := by
  refine ⟨fun {k e'} hk => ?_, fun {k e'} hk => ?_⟩ <;> obtain ⟨e, he, hlives⟩ := h.rewrites.back hk
  · rw [hlives.id, hg.id_eq he]
  · rw [h.rewrites.terrain]
    exact hlives.inside (hg.inside he).1 (hg.inside he).2

/-- Those who come come to a standstill: nobody is on its way from somewhere else. -/
def AdmitsAtRest (_ : Region) : Command → Prop
  | .insert e => e.oldPosition = e.position
  | _ => True

/-- Entities at rest come, and entities leave; nothing else happens. -/
def AdmitsTraffic (_ : Region) : Command → Prop
  | .insert e => e.oldPosition = e.position
  | .remove _ => True
  | _ => False

theorem admitsAtRest_of_admitsTraffic {c : Command} (h : g.AdmitsTraffic c) : g.AdmitsAtRest c := by
  cases c <;> first | exact h | trivial

/-- Whatever happens, nobody is filed who is not here. -/
theorem Orderly.execute (hg : g.Orderly) {c : Command} (hc : g.AdmitsAtRest c) :
    (g.execute c).Orderly := by
  obtain ⟨e, x, g', rfl, hins, heq⟩ | ⟨id, e, g', rfl, hrem, heq⟩ | ⟨rfl, heq⟩ | hgoes :=
    g.execute_cases c
  · have hwithin := hg.toWithin.insert hins hc
    have hfind := find?_insert hins
    rw [heq]
    obtain ⟨-, -, -, publicIds, -, rfl⟩ := insert_eq_ok_iff.mp hins
    refine ⟨hwithin, hg.coherent.file _ _ _, tidy_file hg.tidy _ _ _, (lastCol_file ..).trans hg.lastCol,
      (lastRow_file ..).trans hg.lastRow, fun {k} hk => ?_⟩
    rw [hfind] at hk
    split at hk
    · cases hk
    · rename_i hne
      exact (filed_file ..).trans ((if_neg hne).trans (hg.absent hk))
  · have hwithin := hg.toWithin.remove hrem
    have hfind := find?_remove hrem
    rw [heq]
    obtain ⟨e₀, -, -, rfl⟩ := remove_eq_some_iff.mp hrem
    refine ⟨hwithin, hg.coherent.erase id, tidy_erase hg.tidy id,
      (lastCol_erase ..).trans hg.lastCol, (lastRow_erase ..).trans hg.lastRow, fun {k} hk => ?_⟩
    rw [hfind] at hk
    refine (filed_erase ..).trans ?_
    split at hk
    · rename_i heq
      exact if_pos heq
    · rename_i hne
      exact (if_neg hne).trans (hg.absent hk)
  · have hindexed := hg.indexed_refile
    have htidy : Tidy g.refile.index.zones :=
      index_refile_of_file (P := fun x => Tidy x.zones) hg.tidy fun x id a b h => tidy_file h id a b
    rw [heq]
    exact ⟨⟨hg.id_eq, hg.inside⟩, hindexed.coherent, htidy, hindexed.lastCol, hindexed.lastRow,
      hindexed.absent⟩
  · have hindex := hgoes.index
    refine ⟨hg.toWithin.goesOn hgoes, by rw [hindex]; exact hg.coherent,
      by rw [hindex]; exact hg.tidy, by rw [hindex, hgoes.rewrites.terrain]; exact hg.lastCol,
      by rw [hindex, hgoes.rewrites.terrain]; exact hg.lastRow, fun {k} hk => ?_⟩
    have hsome := hgoes.rewrites.isSome_find? k
    rw [hk] at hsome
    rw [hindex]
    exact hg.absent (Option.not_isSome_iff_eq_none.mp (by rw [← hsome]; simp))

/-- The terrain is always the same. -/
theorem terrain_execute (g : Region) (c : Command) : (g.execute c).terrain = g.terrain := by
  obtain ⟨e, x, g', -, hins, heq⟩ | ⟨id, e, g', -, hrem, heq⟩ | ⟨-, heq⟩ | hgoes :=
    g.execute_cases c
  · rw [heq]
    obtain ⟨-, -, -, publicIds, -, rfl⟩ := insert_eq_ok_iff.mp hins
    rfl
  · rw [heq]
    obtain ⟨e₀, -, -, rfl⟩ := remove_eq_some_iff.mp hrem
    rfl
  · rw [heq]
    rfl
  · exact hgoes.rewrites.terrain

/-! ### An index that is up to date -/

/-- Comings and leavings keep the index up to date. -/
theorem Indexed.execute (hg : g.Indexed) {c : Command} (hc : g.AdmitsTraffic c) :
    (g.execute c).Indexed := by
  cases c with
  | insert e =>
    rw [Region.execute]
    rcases h : g.insert e with err | ⟨x, g'⟩
    · exact hg
    · exact hg.insert h hc
  | remove id =>
    rw [Region.execute]
    rcases h : g.remove id with _ | ⟨e, g'⟩
    · exact hg
    · exact hg.remove h
  | _ => exact hc.elim

/-- Two regions with the same entities on the same terrain have the same index if both are up to
date. -/
theorem Indexed.index_eq (hg : g.Indexed) (hg' : g'.Indexed) (htidy : Tidy g.index.zones)
    (htidy' : Tidy g'.index.zones) (hterrain : g'.terrain = g.terrain)
    (hfind : ∀ k, g'.find? k = g.find? k) : g'.index = g.index := by
  have hcol : g'.index.lastCol = g.index.lastCol := by rw [hg'.lastCol, hg.lastCol, hterrain]
  have hrow : g'.index.lastRow = g.index.lastRow := by rw [hg'.lastRow, hg.lastRow, hterrain]
  refine eq_of_filed_eq hg'.coherent hg.coherent htidy' htidy hcol hrow fun k => ?_
  rw [hg'.filed, hg.filed, hfind]
  simp only [zoneOf_congr hcol hrow]

/-- Who is filed in a zone. -/
theorem Indexed.mem_entitiesOf_iff (hg : g.Indexed) {z : Zone} {k : EntityId} :
    k ∈ g.index.entitiesOf z ↔ ∃ e, g.find? k = some e ∧
      (z = (ofTerrain g.terrain).zoneOf e.oldPosition ∨
        z = (ofTerrain g.terrain).zoneOf e.position) := by
  rw [hg.coherent, hg.filed]
  simp only [Option.map_eq_some_iff, Prod.mk.injEq, zoneOf_congr hg.lastCol hg.lastRow]
  constructor
  · rintro ⟨a, b, ⟨e, he, rfl, rfl⟩, hz⟩
    exact ⟨e, he, hz⟩
  · rintro ⟨e, he, hz⟩
    exact ⟨_, _, ⟨e, he, rfl, rfl⟩, hz⟩

/-- The region with an index in which nobody is filed. -/
def unfiled (g : Region) : Region := { g with index := .ofTerrain g.terrain }

/-- Whatever a map has been through, once everybody has been filed anew, and while entities at rest
come and others leave after that, an entity is filed in a zone exactly when it is on the map and
its old or its present position is in the zone, the index is the one that would come about if
everybody were filed from nothing, and each question about nearness has the answer that looking at
everybody would give, for points, players and things anywhere. -/
theorem searches_eq_scans_of_reaches {id : MapId} {terrain : Terrain} {fixtures : List Fixture}
    {random : RandomStream} {limit : UInt16} {g g' : Region}
    (h : Reaches execute AdmitsAtRest (vacant id terrain fixtures random limit) g)
    (h' : Reaches execute AdmitsTraffic g.refile g') :
    (∀ z k, k ∈ g'.index.entitiesOf z ↔ ∃ e, g'.find? k = some e ∧
      (z = (ofTerrain terrain).zoneOf e.oldPosition ∨
        z = (ofTerrain terrain).zoneOf e.position)) ∧
    g'.index = g'.unfiled.refile.index ∧
    ∀ range : UInt16,
      (∀ center, g'.beingsAround center range =
        g'.entities.filter fun e => e.isBeing && e.position.inRange center range) ∧
      (∀ player, g'.beingsConcerning player range = g'.entities.filter fun e => e.isBeing &&
        (e.oldPosition.inRange player.oldPosition range ||
          e.oldPosition.inRange player.position range ||
          e.position.inRange player.oldPosition range ||
          e.position.inRange player.position range)) ∧
      ∀ thing, g'.playersAround thing range =
        g'.entities.filter fun e => e.isPlayer && e.position.inRange thing.position range := by
  have hg : g.Orderly :=
    h.invariant (orderly_vacant id terrain fixtures random limit) fun _ _ ht hc => ht.execute hc
  have hrefiled : g.refile.Orderly := hg.execute (c := .refile) trivial
  have horderly : g'.Orderly :=
    h'.invariant hrefiled fun _ _ ht hc => ht.execute (admitsAtRest_of_admitsTraffic hc)
  have hindexed : g'.Indexed := h'.invariant hg.indexed_refile fun _ _ ht hc => ht.execute hc
  have hterrain : g'.terrain = terrain := by
    have hstart : g.terrain = terrain :=
      h.invariant (P := fun v => v.terrain = terrain) rfl fun v c hv _ =>
        (v.terrain_execute c).trans hv
    exact h'.invariant (P := fun v => v.terrain = terrain) hstart fun v c hv _ =>
      (v.terrain_execute c).trans hv
  refine ⟨fun z k => ?_, ?_, fun range => ⟨fun center => ?_, fun player => ?_, fun thing => ?_⟩⟩
  · rw [hindexed.mem_entitiesOf_iff, hterrain]
  · -- an index in which nobody is filed is out of date in its own way
    have hunfiled : g'.unfiled.Orderly :=
      ⟨⟨horderly.id_eq, horderly.inside⟩, coherent_ofTerrain _, tidy_ofTerrain _, rfl, rfl,
        fun _ => ExtTreeMap.getElem?_empty⟩
    have hanew : g'.unfiled.refile.Orderly := hunfiled.execute (c := .refile) trivial
    exact hunfiled.indexed_refile.index_eq hindexed hanew.tidy horderly.tidy rfl fun _ => rfl
  · exact hindexed.beingsAround_eq horderly.toWithin center range
  · rw [hindexed.beingsConcerning_eq horderly.toWithin]
    simp only [concerns, List.any_cons, List.any_nil, Bool.or_false, Bool.or_assoc]
  · exact hindexed.playersAround_eq horderly.toWithin thing range

/-! ### An example -/

/-- A map with public ids for three, on which nobody is yet. -/
def yard : Region := vacant ⟨1⟩ (.clear 20 20) [] ⟨1, 2⟩ 3

/-- A monster has crossed the edge of a zone before the eyes of a player. -/
def crossing : Region :=
  [.insert (.monster (.nth 1) 7 ⟨1⟩ ⟨252, 100⟩),
    .insert (.player (.nth 2) ⟨"Ann", 0, 0, 0⟩ ⟨1⟩ ⟨40, 40⟩), .refile, .walk (.nth 1) ⟨400, 100⟩,
    .freeze, .step].foldl execute yard

/-- Everybody has been filed anew there, another monster has come, and the player has left. -/
def crossed : Region :=
  [.insert (.monster (.nth 3) 7 ⟨1⟩ ⟨500, 90⟩), .remove (.nth 2)].foldl execute crossing.refile

/-- The monster is still filed under the zone that it has left, and a search finds whom a scan finds. -/
theorem searches_eq_scans_at_crossing :
    .nth 1 ∈ crossed.index.entitiesOf ⟨0, 0⟩ ∧
      crossed.beingsAround ⟨240, 100⟩ 20 =
        crossed.entities.filter fun e => e.isBeing && e.position.inRange ⟨240, 100⟩ 20 := by
  have hreach : Reaches execute AdmitsAtRest yard crossing :=
    Reaches.foldl _ _ (by simp [AdmitsAtRest, Entity.monster, Entity.player])
  have hreach' : Reaches execute AdmitsTraffic crossing.refile crossed :=
    Reaches.foldl _ _ (by simp [AdmitsTraffic, Entity.monster])
  have hmonster : (crossed.find? (.nth 1)).map Entity.oldPosition = some ⟨252, 100⟩ := by cbv
  obtain ⟨hfiled, -, hsearch⟩ := searches_eq_scans_of_reaches hreach hreach'
  obtain ⟨e, he, hold⟩ := Option.map_eq_some_iff.mp hmonster
  have hzone : (⟨0, 0⟩ : Zone) = (ofTerrain (.clear 20 20)).zoneOf e.oldPosition := by
    rw [hold]
    decide
  exact ⟨(hfiled _ _).mpr ⟨e, he, .inl hzone⟩, (hsearch 20).1 _⟩

end Region

end TileWorld
