import TileWorld.Proofs.Renaming
import TileWorld.Proofs.World.Delivery
import TileWorld.Proofs.World.Turn

/-!
# A map under other identities

The same map on which everybody goes by another identity (`Region.rename`). What happens on a map
does not depend on how its entities are called, so it commutes with the change of names: taking note,
stepping and forgetting whatever the names are, thinking only if the names keep their order
(`Region.rename_think`), since everybody draws from one random stream. What the players are told
names nobody by its identity and is the same (`Region.Sound.diff_rename`).

A monster that comes up gets the next identity, so the names have to be changed such that the next
identities go together. Then the fixtures of the two maps do the same (`Bookkeeping.Mirrors.runAll`).
-/

namespace TileWorld

open Std

/-! ### Other names -/

/-- The entity under another identity. -/
def Entity.rename (f : EntityId → EntityId) (e : Entity) : Entity := { e with id := f e.id }

/-- The index with everybody filed under other names. -/
def ZoneIndex.rename (f : EntityId → EntityId) (x : ZoneIndex) : ZoneIndex :=
  { x with
    filed := Table.rename f x.filed
    zones := x.zones.map fun _ ids => OrderedSet.rename f ids }

/-- The spawn area with its monsters under other names. -/
def SpawnArea.rename (f : EntityId → EntityId) (s : SpawnArea) : SpawnArea :=
  { s with population := OrderedSet.rename f s.population }

/-- The fixture with its monsters under other names. -/
def Fixture.rename (f : EntityId → EntityId) : Fixture → Fixture
  | gate g => gate g
  | spawn s => spawn (s.rename f)

/-- The identities that a fixture knows. -/
def Fixture.known : Fixture → List EntityId
  | gate _ => []
  | spawn s => s.population.toList

namespace Region

/-- The map with everybody under other names. -/
def rename (f : EntityId → EntityId) (g : Region) : Region :=
  { g with
    fixtures := g.fixtures.map (Fixture.rename f)
    members := Table.rename f (g.members.map fun _ e => e.rename f)
    index := g.index.rename f }

/-- The identities that are in use on the map: those of the entities, and those of the monsters of
which its spawn areas know. -/
def known (g : Region) : List EntityId := g.members.keys ++ g.fixtures.flatMap Fixture.known

end Region

/-! ### The index -/

namespace ZoneIndex

variable (π : Equiv.Perm EntityId) (x : ZoneIndex)

theorem map_addTo (zones : Table Zone (OrderedSet EntityId)) (z : Zone) (id : EntityId) :
    (addTo zones z id).map (fun _ ids => OrderedSet.rename π ids) =
      addTo (zones.map fun _ ids => OrderedSet.rename π ids) z (π id) := by
  refine ExtTreeMap.ext_getElem? fun z' => ?_
  simp only [addTo, ExtTreeMap.getElem?_map, Table.getElem?_alter]
  split
  · rcases zones[z']? with _ | ids <;> simp [OrderedSet.rename_insert, OrderedSet.rename_empty]
  · rfl

theorem map_dropFrom (zones : Table Zone (OrderedSet EntityId)) (z : Zone) (id : EntityId) :
    (dropFrom zones z id).map (fun _ ids => OrderedSet.rename π ids) =
      dropFrom (zones.map fun _ ids => OrderedSet.rename π ids) z (π id) := by
  refine ExtTreeMap.ext_getElem? fun z' => ?_
  have hids (ids : OrderedSet EntityId) :
      (if (ids.erase id).isEmpty then none else some (ids.erase id)).map (OrderedSet.rename π) =
        if ((OrderedSet.rename π ids).erase (π id)).isEmpty then none
        else some ((OrderedSet.rename π ids).erase (π id)) := by
    rw [← OrderedSet.rename_erase, OrderedSet.isEmpty_rename]
    split <;> rfl
  simp only [dropFrom, ExtTreeMap.getElem?_map, Table.getElem?_alter]
  split
  · rcases zones[z']? with _ | ids
    · have hempty := hids ∅
      rw [OrderedSet.rename_empty] at hempty
      exact hempty
    · exact hids ids
  · rfl

theorem rename_erase (id : EntityId) : (x.erase id).rename π = (x.rename π).erase (π id) := by
  have hfiled : (x.rename π).filed[π id]? = x.filed[id]? := Table.getElem?_rename_apply ..
  rw [erase, erase, hfiled]
  rcases x.filed[id]? with _ | ⟨a, b⟩
  · rfl
  · simp only [rename, Table.rename_erase, map_dropFrom]

theorem rename_file (id : EntityId) (a b : Zone) :
    (x.file id a b).rename π = (x.rename π).file (π id) a b := by
  have hfiled : (x.rename π).filed[π id]? = x.filed[id]? := Table.getElem?_rename_apply ..
  rw [file, file, hfiled]
  split
  · rfl
  · rw [← rename_erase]
    simp only [rename, Table.rename_insert, map_addTo]

end ZoneIndex

/-! ### The life of an entity -/

namespace Entity

variable (e : Entity) (f : EntityId → EntityId)

theorem rename_step (t : Terrain) : (e.step t).rename f = (e.rename f).step t := by
  simp only [step, apply_ite (rename f)]
  rfl

/-- Thinking does not depend on the name. -/
theorem think_rename (r : RandomStream) :
    think r (e.rename f) = ((think r e).1.rename f, (think r e).2) := by
  rcases e with ⟨id, publicId, map, position, oldPosition, destination, speed, changes, kind⟩
  rcases kind with _ | _ | ⟨sort, mind⟩ | _
  · rfl
  · rfl
  · simp only [think, rename]
    rcases mind.think position destination r with ⟨_ | target, mind', r'⟩ <;> rfl
  · rfl

end Entity

/-- Whether a monster is due does not depend on names. -/
theorem SpawnArea.ready_rename (π : Equiv.Perm EntityId) (s : SpawnArea) :
    (s.rename π).ready = (s.ready.1, s.ready.2.rename π) := by
  have hsize : (s.rename π).population.size = s.population.size := OrderedSet.size_rename ..
  have hcapacity : (s.rename π).capacity = s.capacity := rfl
  have hcountdown : (s.rename π).countdown = s.countdown := rfl
  simp only [ready, hsize, hcapacity, hcountdown]
  by_cases hfull : s.population.size ≥ s.capacity
  · simp only [hfull, if_true]
  · by_cases hwaits : s.countdown > 0
    · simp only [hfull, hwaits, if_false, if_true]
      rfl
    · simp only [hfull, hwaits, if_false]
      rfl

/-! ### Who is on the map -/

namespace Region

variable (π : Equiv.Perm EntityId) (g : Region)

theorem find?_rename (k : EntityId) :
    (g.rename π).find? k = (g.find? (π.symm k)).map (Entity.rename π) := by
  rw [find?, rename, Table.getElem?_rename, ExtTreeMap.getElem?_map]
  rfl

/-- Under its new name one finds who was there under the old one. -/
theorem find?_rename_apply (k : EntityId) :
    (g.rename π).find? (π k) = (g.find? k).map (Entity.rename π) := by
  rw [find?_rename, Equiv.symm_apply_apply]

theorem contains_rename (k : EntityId) : (g.rename π).contains (π k) = g.contains k := by
  rw [contains_eq_isSome, contains_eq_isSome, find?_rename_apply, Option.isSome_map]

/-- The names of the entities keep their order. -/
def KeepsOrder (f : EntityId → EntityId) (g : Region) : Prop :=
  TileWorld.KeepsOrder f {id | id ∈ g.members}

variable {π g}

theorem toList_members_rename (h : g.KeepsOrder π) :
    (g.rename π).members.toList = g.members.toList.map fun p => (π p.1, p.2.rename π) := by
  have hkeys : TileWorld.KeepsOrder π {id | id ∈ g.members.map fun _ e => e.rename π} :=
    h.mono fun id hid => ExtTreeMap.mem_map.mp hid
  rw [rename, Table.toList_rename hkeys, ExtTreeMap.toList_map, List.map_map]
  rfl

/-- If names keep their order, the entities are listed in the same order. -/
theorem entities_rename (h : g.KeepsOrder π) :
    (g.rename π).entities = g.entities.map (Entity.rename π) := by
  rw [entities, toList_members_rename h, entities, List.map_map, List.map_map]
  rfl

/-- It is enough that the same identities are on the map. -/
theorem KeepsOrder.of_isSome {f : EntityId → EntityId} {g' : Region} (h : g.KeepsOrder f)
    (hsome : ∀ k, (g'.find? k).isSome = (g.find? k).isSome) : g'.KeepsOrder f := by
  refine h.mono fun k hk => ?_
  rw [Set.mem_ofPred_eq, ExtTreeMap.mem_iff_isSome_getElem?] at hk ⊢
  exact (hsome k).symm.trans hk

/-! ### The passes of a tick -/

/-- What happens to everybody alike, whatever the name, happens under other names as well. -/
theorem rename_map_members {h : Entity → Entity} (hcomm : ∀ e, (h e).rename π = h (e.rename π)) :
    Table.rename π ((g.members.map fun _ e => h e).map fun _ e => e.rename π) =
      (g.rename π).members.map fun _ e => h e := by
  refine ExtTreeMap.ext_getElem? fun k => ?_
  simp only [rename, Table.getElem?_rename, ExtTreeMap.getElem?_map, Option.map_map]
  congr 1
  exact funext hcomm

theorem rename_freeze : g.freeze.rename π = (g.rename π).freeze :=
  congrArg (fun members => { g.rename π with members }) <|
    rename_map_members (h := Entity.freeze) fun _ => rfl

theorem rename_step : g.step.rename π = (g.rename π).step :=
  congrArg (fun members => { g.rename π with members }) <|
    rename_map_members (h := Entity.step g.terrain) fun e => e.rename_step π g.terrain

theorem rename_clearChanges : g.clearChanges.rename π = (g.rename π).clearChanges :=
  congrArg (fun members => { g.rename π with members }) <|
    rename_map_members (h := Entity.clearChanges) fun _ => rfl

/-- Everybody draws in the same order from the same stream. -/
theorem rename_think (h : g.KeepsOrder π) : g.think.rename π = (g.rename π).think := by
  -- the list of those who have thought is renamed as the list of those who are to think
  have hlist (r : RandomStream) (l : List (EntityId × Entity)) :
      threadList Entity.think r (l.map fun p => (π p.1, p.2.rename π)) =
        ((threadList Entity.think r l).1.map fun p => (π p.1, p.2.rename π),
          (threadList Entity.think r l).2) := by
    induction l generalizing r with
    | nil => rfl
    | cons p l ih => simp only [List.map_cons, threadList, Entity.think_rename, ih]
  have horder : g.think.KeepsOrder π := h.of_isSome fun k => by
    obtain ⟨r, hr⟩ := g.find?_think k
    rw [hr, Option.isSome_map]
  have hmembers : (g.think.rename π).members = (g.rename π).think.members := by
    refine ExtTreeMap.toList_inj.mp ?_
    rw [toList_members_rename horder, toList_think, toList_think, toList_members_rename h, hlist]
    rfl
  have hrandom : g.think.random = (g.rename π).think.random := by
    rw [random_think, random_think, toList_members_rename h, hlist]
    rfl
  show ({ g.rename π with
    members := (g.think.rename π).members
    random := g.think.random } : Region) = { g.rename π with
      members := (g.rename π).think.members
      random := (g.rename π).think.random }
  rw [hmembers, hrandom]

/-- Everybody can be filed first and renamed then. -/
theorem rename_refile (h : g.KeepsOrder π) : g.refile.rename π = (g.rename π).refile := by
  have hfold : g.members.toList.foldl (fun x p =>
      x.file (π p.1) (x.zoneOf p.2.oldPosition) (x.zoneOf p.2.position)) (g.index.rename π) =
        (g.members.toList.foldl (fun x p =>
          x.file p.1 (x.zoneOf p.2.oldPosition) (x.zoneOf p.2.position)) g.index).rename π :=
    List.foldl_hom _ fun x p => (x.rename_file π _ _ _).symm
  have hindex : g.refile.index.rename π = (g.rename π).refile.index := by
    rw [refile, refile, ExtTreeMap.foldl_eq_foldl_toList, ExtTreeMap.foldl_eq_foldl_toList,
      toList_members_rename h, List.foldl_map]
    exact hfold.symm
  exact congrArg (fun index => { g.rename π with index }) hindex

/-- Before anybody is told, on both maps the same has happened. -/
theorem rename_advance (h : g.KeepsOrder π) : g.advance.rename π = (g.rename π).advance := by
  have hfrozen : g.freeze.KeepsOrder π := h.of_isSome fun k => by
    rw [find?_freeze, Option.isSome_map]
  have hstepped : g.freeze.think.step.KeepsOrder π := hfrozen.of_isSome fun k => by
    obtain ⟨r, hr⟩ := g.freeze.find?_think k
    rw [find?_step, hr, Option.isSome_map, Option.isSome_map]
  rw [advance, advance, rename_refile hstepped, rename_step, rename_think hfrozen, rename_freeze]

/-! ### Coming onto the map -/

theorem rename_mark (id : EntityId) : (g.mark id).rename π = (g.rename π).mark (π id) := by
  have hmembers : Table.rename π ((g.mark id).members.map fun _ e => e.rename π) =
      ((g.rename π).mark (π id)).members := by
    refine ExtTreeMap.ext_getElem? fun k => ?_
    simp only [mark, modify, rename, Table.getElem?_rename, ExtTreeMap.getElem?_map,
      Table.getElem?_modify, Equiv.symm_apply_eq, Option.map_map]
    split
    · simp only [Option.map_map]
      rfl
    · rfl
  exact congrArg (fun members => { g.rename π with members }) hmembers

/-- A map takes an entity if it takes it under another name. -/
theorem insert_rename {e : Entity} :
    ((g.rename π).insert (e.rename π)).toOption =
      (g.insert e).toOption.map fun r => (r.1, r.2.rename π) := by
  have hcontains : (g.rename π).contains (e.rename π).id = g.contains e.id := contains_rename ..
  have hid : (e.rename π).publicId = e.publicId := rfl
  have hinside : (g.rename π).terrain.contains (e.rename π).position =
    g.terrain.contains e.position := rfl
  have hpool : (g.rename π).publicIds = g.publicIds := rfl
  rw [insert, insert, hcontains, hid, hinside, hpool]
  split
  · rfl
  split
  · rfl
  rcases g.publicIds.take with _ | ⟨x, publicIds⟩
  · rfl
  have hmembers : Table.rename π ((g.members.insert e.id { e with publicId := some x }).map
      fun _ e => e.rename π) =
        (g.rename π).members.insert (π e.id) { e.rename π with publicId := some x } := by
    refine ExtTreeMap.ext_getElem? fun k => ?_
    simp only [rename, Table.getElem?_rename, ExtTreeMap.getElem?_map, Table.getElem?_insert,
      Equiv.symm_apply_eq]
    split <;> rfl
  have hindex := g.index.rename_file π e.id (g.index.zoneOf e.position) (g.index.zoneOf e.position)
  refine congrArg some (congrArg (Prod.mk x) ?_)
  exact congrArg₂ (fun members index => ({ g.rename π with members, publicIds, index } : Region))
    hmembers.symm hindex.symm

/-- What a spawn area does before a monster comes up: it finds the place where one is to appear, if
one is due. -/
def scout (g : Region) (s : SpawnArea) : Option Point × SpawnArea × Region :=
  let (due, s) := { s with population := s.population.filter g.contains }.ready
  if due then
    let (p, random) := g.terrain.findWalkable s.area spawnAttempts g.random
    (p, s, { g with random })
  else (none, s, g)

/-- A monster comes up where the spawn area has found a place for it. -/
theorem spawn_eq (g : Region) (s : SpawnArea) (fresh : EntityId) :
    g.spawn s fresh = match g.scout s with
      | (none, s, g) => (.idle, s, g)
      | (some p, s, g) => match g.insert (.monster fresh s.sort g.id p) with
        | .error _ => (.refused, s, g)
        | .ok (_, g) => (.placed, { s with population := s.population.insert fresh }, g.mark fresh) := by
  rw [spawn, scout]
  generalize { s with population := s.population.filter g.contains }.ready = r
  obtain ⟨due, s⟩ := r
  rcases due
  · rfl
  · rcases hfind : g.terrain.findWalkable s.area spawnAttempts g.random with ⟨_ | p, random⟩
    · simp [hfind]
    · simp only [Bool.not_true, Bool.false_eq_true, if_false, hfind, if_true]
      rfl

/-- A spawn area finds the same place under other names. -/
theorem scout_rename (s : SpawnArea) :
    (g.rename π).scout (s.rename π) =
      ((g.scout s).1, (g.scout s).2.1.rename π, (g.scout s).2.2.rename π) := by
  have hpopulation : (OrderedSet.rename π s.population).filter (g.rename π).contains =
      OrderedSet.rename π (s.population.filter g.contains) :=
    (OrderedSet.rename_filter π _ (contains_rename π g)).symm
  have hready := SpawnArea.ready_rename π { s with population := s.population.filter g.contains }
  rw [SpawnArea.rename, ← hpopulation] at hready
  rw [scout, scout, SpawnArea.rename, hready]
  generalize { s with population := s.population.filter g.contains }.ready = r
  obtain ⟨due, s⟩ := r
  rcases due <;> rfl

/-! ### What the players are told -/

/-- A search finds the same beings under other names. -/
theorem Sound.beingsConcerning_rename (hg : g.Sound) (hg' : (g.rename π).Sound)
    (h : g.KeepsOrder π) (viewer : Entity) (range : UInt16) :
    (g.rename π).beingsConcerning (viewer.rename π) range =
      (g.beingsConcerning viewer range).map (Entity.rename π) := by
  rw [hg'.indexed.beingsConcerning_eq hg'.placed.within,
    hg.indexed.beingsConcerning_eq hg.placed.within, entities_rename h, List.filter_map]
  rfl

/-- A player is told the same, in the same order. -/
theorem Sound.diff_rename (hg : g.Sound) (hg' : (g.rename π).Sound) (h : g.KeepsOrder π)
    (viewer : Entity) (range : UInt16) :
    (g.rename π).diff (viewer.rename π) range = g.diff viewer range := by
  rw [diff, diff, hg.beingsConcerning_rename hg' h, List.mapM_map]
  rfl

/-! ### Names that nobody uses -/

theorem mem_known_of_mem {k : EntityId} (h : k ∈ g.members) : k ∈ g.known :=
  List.mem_append_left _ (ExtTreeMap.mem_keys.mpr h)

theorem mem_known_of_find? {k : EntityId} {e : Entity} (h : g.find? k = some e) : k ∈ g.known :=
  mem_known_of_mem (ExtTreeMap.mem_iff_isSome_getElem?.mpr (Option.isSome_of_eq_some h))

/-- Nobody is filed who is not on the map. -/
theorem Sound.mem_of_mem_filed (hg : g.Sound) {k : EntityId} (h : k ∈ g.index.filed) :
    k ∈ g.members := by
  rw [ExtTreeMap.mem_iff_isSome_getElem?, hg.indexed.filed, Option.isSome_map] at h
  exact ExtTreeMap.mem_iff_isSome_getElem?.mpr h

/-- Only what becomes of the identities in use matters. -/
theorem Sound.rename_congr (hg : g.Sound) {f f' : EntityId → EntityId}
    (h : ∀ id ∈ g.known, f id = f' id) : g.rename f = g.rename f' := by
  have hmembers : Table.rename f (g.members.map fun _ e => e.rename f) =
      Table.rename f' (g.members.map fun _ e => e.rename f') := by
    have hmap : (g.members.map fun _ e => e.rename f) = g.members.map fun _ e => e.rename f' := by
      refine ExtTreeMap.ext_getElem? fun k => ?_
      rw [ExtTreeMap.getElem?_map, ExtTreeMap.getElem?_map]
      refine Option.map_congr fun e he => ?_
      have hid : e.id = k := hg.placed.id_eq he
      rw [Entity.rename, Entity.rename, hid, h k (mem_known_of_find? he)]
    rw [hmap]
    exact Table.rename_congr fun k hk => h k (mem_known_of_mem (ExtTreeMap.mem_map.mp hk))
  have hindex : g.index.rename f = g.index.rename f' := by
    have hfiled : Table.rename f g.index.filed = Table.rename f' g.index.filed :=
      Table.rename_congr fun k hk => h k (mem_known_of_mem (hg.mem_of_mem_filed hk))
    have hzones : (g.index.zones.map fun _ ids => OrderedSet.rename f ids) =
        g.index.zones.map fun _ ids => OrderedSet.rename f' ids := by
      refine ExtTreeMap.ext_getElem? fun z => ?_
      rw [ExtTreeMap.getElem?_map, ExtTreeMap.getElem?_map]
      refine Option.map_congr fun ids hids => OrderedSet.rename_congr fun k hk => ?_
      have hzone : g.index.entitiesOf z = ids := by rw [ZoneIndex.entitiesOf, hids]; rfl
      obtain ⟨a, b, hab, -⟩ := (hg.indexed.coherent z k).mp (hzone ▸ hk)
      refine h k (mem_known_of_mem (hg.mem_of_mem_filed ?_))
      rw [ExtTreeMap.mem_iff_isSome_getElem?, hab]
      rfl
    rw [ZoneIndex.rename, ZoneIndex.rename, hfiled, hzones]
  have hfixtures : g.fixtures.map (Fixture.rename f) = g.fixtures.map (Fixture.rename f') := by
    refine List.map_congr_left fun fixture hfixture => ?_
    cases fixture with
    | gate gate => rfl
    | spawn s =>
      have hpopulation : OrderedSet.rename f s.population = OrderedSet.rename f' s.population :=
        OrderedSet.rename_congr fun k hk => h k <| List.mem_append_right _ <|
          List.mem_flatMap.mpr ⟨_, hfixture, ExtTreeSet.mem_toList.mpr hk⟩
      rw [Fixture.rename, Fixture.rename, SpawnArea.rename, SpawnArea.rename, hpopulation]
  rw [rename, rename, hmembers, hindex, hfixtures]

end Region

/-! ### The work of the fixtures -/

namespace Bookkeeping

variable {π : Equiv.Perm EntityId} {n n' : Nat} {b b' : Bookkeeping}

/-- The second books are about the same map under other names, and since the turn began as many
identities have been given out. -/
structure Mirrors (π : Equiv.Perm EntityId) (n n' : Nat) (b b' : Bookkeeping) : Prop where
  region : b'.region = b.region.rename π
  issued : ∃ j, b.issued = n + j ∧ b'.issued = n' + j

/-- A monster comes up at a point, if the map takes it. -/
def release (b : Bookkeeping) (s : SpawnArea) (g : Region) (p : Point) : SpawnArea × Bookkeeping :=
  match g.insert (.monster (.nth (b.issued + 1)) s.sort g.id p) with
  | .error _ => (s, { b with region := g, issued := b.issued + 1 })
  | .ok (_, g) => ({ s with population := s.population.insert (.nth (b.issued + 1)) },
    { b with
      region := g.mark (.nth (b.issued + 1))
      issued := b.issued + 1
      locations := b.locations.insert (.nth (b.issued + 1)) g.id
      spawned := b.spawned + 1 })

/-- A spawn area's turn, in terms of what it does before a monster comes up. -/
theorem runSpawn_eq (b : Bookkeeping) (s : SpawnArea) :
    b.runSpawn s = match b.region.scout s with
      | (none, s, region) => (s, { b with region })
      | (some p, s, region) => b.release s region p := by
  rw [runSpawn, Region.spawn_eq]
  rcases b.region.scout s with ⟨_ | p, s', g⟩
  · rfl
  · simp only [release]
    rcases g.insert (.monster (.nth (b.issued + 1)) s'.sort g.id p) with _ | ⟨x, g'⟩ <;> rfl

theorem issued_release (b : Bookkeeping) (s : SpawnArea) (g : Region) (p : Point) :
    (b.release s g p).2.issued = b.issued + 1 := by
  rw [release]
  split <;> rfl

/-- The identity that the monster gets on the one map goes together with the one that it gets on the
other. -/
theorem release_rename {s : SpawnArea} {g : Region} {p : Point}
    (hfresh : π (.nth (b.issued + 1)) = .nth (b'.issued + 1)) :
    (b'.release (s.rename π) (g.rename π) p).1 = (b.release s g p).1.rename π ∧
      (b'.release (s.rename π) (g.rename π) p).2.region = (b.release s g p).2.region.rename π := by
  have hins := g.insert_rename (π := π) (e := .monster (.nth (b.issued + 1)) s.sort g.id p)
  have hmonster : (Entity.monster (.nth (b.issued + 1)) s.sort g.id p).rename π =
      .monster (.nth (b'.issued + 1)) (s.rename π).sort (g.rename π).id p :=
    congrArg (fun id => Entity.monster id s.sort g.id p) hfresh
  rw [hmonster] at hins
  rw [release, release]
  rcases hA : g.insert (.monster (.nth (b.issued + 1)) s.sort g.id p) with err | ⟨x, g₁⟩ <;>
    rcases hB : (g.rename π).insert (.monster (.nth (b'.issued + 1)) (s.rename π).sort
      (g.rename π).id p) with err' | ⟨x', g₁'⟩ <;> rw [hA, hB] at hins
  · exact ⟨rfl, rfl⟩
  · cases hins
  · cases hins
  · obtain ⟨-, rfl⟩ := Prod.mk.inj (Option.some.inj hins)
    simp only [Region.rename_mark, hfresh]
    refine ⟨?_, trivial⟩
    simp only [SpawnArea.rename, OrderedSet.rename_insert, hfresh]

/-- A spawn area does the same in both books, up to names. -/
theorem Mirrors.runSpawn (hπ : Shifts π n n') (h : Mirrors π n n' b b') (s : SpawnArea)
    (hlt : (b.runSpawn s).2.issued < UInt32.size)
    (hlt' : (b'.runSpawn (s.rename π)).2.issued < UInt32.size) :
    (b'.runSpawn (s.rename π)).1 = (b.runSpawn s).1.rename π ∧
      Mirrors π n n' (b.runSpawn s).2 (b'.runSpawn (s.rename π)).2 := by
  obtain ⟨hregion, j, hj, hj'⟩ := h
  rw [runSpawn_eq] at hlt hlt' ⊢
  rw [runSpawn_eq]
  rw [hregion, Region.scout_rename] at hlt' ⊢
  rcases hscout : b.region.scout s with ⟨_ | p, s₁, g₁⟩
  · exact ⟨rfl, rfl, j, hj, hj'⟩
  · simp only [hscout, issued_release] at hlt hlt' ⊢
    have hfresh : π (.nth (b.issued + 1)) = .nth (b'.issued + 1) := by
      rw [hj, hj', Nat.add_assoc, Nat.add_assoc]
      exact hπ (j + 1) (Nat.succ_pos j) (by omega) (by omega)
    obtain ⟨hs, hg⟩ := release_rename (s := s₁) (g := g₁) (p := p) hfresh
    exact ⟨hs, hg, j + 1, by rw [issued_release, hj, Nat.add_assoc],
      by rw [issued_release, hj', Nat.add_assoc]⟩

/-- A fixture does the same in both books, up to names. -/
theorem Mirrors.run (hπ : Shifts π n n') (h : Mirrors π n n' b b') (fixture : Fixture)
    (hlt : (b.run fixture).2.issued < UInt32.size)
    (hlt' : (b'.run (fixture.rename π)).2.issued < UInt32.size) :
    (b'.run (fixture.rename π)).1 = (b.run fixture).1.rename π ∧
      Mirrors π n n' (b.run fixture).2 (b'.run (fixture.rename π)).2 := by
  cases fixture with
  | gate gate => exact ⟨rfl, h.region, h.issued⟩
  | spawn s =>
    obtain ⟨hs, hmirrors⟩ := h.runSpawn hπ s hlt hlt'
    exact ⟨congrArg Fixture.spawn hs, hmirrors⟩

/-- The fixtures of the two maps do the same. -/
theorem Mirrors.runAll (hπ : Shifts π n n') (h : Mirrors π n n' b b') (fs : List Fixture)
    (hlt : (b.runAll fs).2.issued < UInt32.size)
    (hlt' : (b'.runAll (fs.map (Fixture.rename π))).2.issued < UInt32.size) :
    (b'.runAll (fs.map (Fixture.rename π))).1 = (b.runAll fs).1.map (Fixture.rename π) ∧
      Mirrors π n n' (b.runAll fs).2 (b'.runAll (fs.map (Fixture.rename π))).2 := by
  induction fs generalizing b b' with
  | nil => exact ⟨rfl, h⟩
  | cons f fs ih =>
    obtain ⟨hf, hrun⟩ := h.run hπ f (Nat.lt_of_le_of_lt (issued_le_runAll _ fs) hlt)
      (Nat.lt_of_le_of_lt (issued_le_runAll _ _) hlt')
    obtain ⟨hfs, hall⟩ := ih hrun hlt hlt'
    exact ⟨congrArg₂ List.cons hf hfs, hall⟩

end Bookkeeping

end TileWorld
