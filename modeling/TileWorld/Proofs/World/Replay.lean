import Mathlib
import TileWorld.Proofs.Region.Renaming
import TileWorld.Proofs.World.Calm

/-!
# Maps do not interfere

Two worlds may have little in common but for one map, which is the same in both up to the names of
those who are on it. As long as nobody goes anywhere, nothing that happens on the other maps shows on
this one: it stays the same up to the names, and its players are told the same
(`World.replays_of_calm`).

One count of identities serves all maps of a world, so the same monster may get one identity in the
one world and another in the other. What matters is that the order of the names is kept, and it is,
since whoever comes later gets a later identity.
-/

namespace TileWorld

open Std Delivery

/-! ### Identities in use after the fixtures have worked -/

namespace Region

theorem mem_population_of_scout {g : Region} {s : SpawnArea} {id : EntityId}
    (h : id ∈ (g.scout s).2.1.population) : id ∈ s.population := by
  have hready : (SpawnArea.ready { s with population := s.population.filter g.contains }).2.population =
      s.population.filter g.contains := by
    rw [SpawnArea.ready]
    split
    · rfl
    · split <;> rfl
  have hscout : (g.scout s).2.1.population = s.population.filter g.contains := by
    rw [scout]
    rcases hr : SpawnArea.ready { s with population := s.population.filter g.contains } with ⟨due, s'⟩
    rw [hr] at hready
    rcases due <;> exact hready
  rw [hscout] at h
  exact (OrderedSet.mem_filter.mp h).1

end Region

namespace Bookkeeping

variable {b : Bookkeeping} {id : EntityId}

/-- A fixture gets to know nobody but who has just got an identity. -/
theorem known_run {f : Fixture} (h : id ∈ (b.run f).1.known) :
    id ∈ f.known ∨ id ∈ given b.issued (b.run f).2.issued := by
  cases f with
  | gate gate => exact .inl h
  | spawn s =>
    have hpopulation : id ∈ (b.runSpawn s).1.population := ExtTreeSet.mem_toList.mp h
    have hscout (h : id ∈ (b.region.scout s).2.1.population) : id ∈ s.population :=
      Region.mem_population_of_scout h
    show id ∈ s.population.toList ∨ id ∈ given b.issued (b.runSpawn s).2.issued
    rw [ExtTreeSet.mem_toList]
    rw [runSpawn_eq] at hpopulation ⊢
    rcases hs : b.region.scout s with ⟨_ | p, s', g⟩ <;> rw [hs] at hscout <;>
      simp only [hs] at hpopulation hscout ⊢
    · exact .inl (hscout hpopulation)
    · rw [issued_release]
      simp only [release] at hpopulation
      split at hpopulation
      · exact .inl (hscout hpopulation)
      · obtain rfl | hold := OrderedSet.mem_insert.mp hpopulation
        · exact .inr ⟨b.issued + 1, Nat.lt_succ_self _, Nat.le_refl _, rfl⟩
        · exact .inl (hscout hold)

/-- When fixtures work, they come to know only monsters that have just come up. -/
theorem known_runAll {fs : List Fixture} (h : id ∈ (b.runAll fs).1.flatMap Fixture.known) :
    id ∈ fs.flatMap Fixture.known ∨ id ∈ given b.issued (b.runAll fs).2.issued := by
  induction fs generalizing b with
  | nil => exact .inl h
  | cons f fs ih =>
    have hle := (b.run f).2.issued_le_runAll fs
    have hle' : b.issued ≤ (b.run f).2.issued := b.issued_le_runAll [f]
    rw [List.flatMap_cons, List.mem_append]
    rcases List.mem_append.mp h with h | h
    · exact (known_run h).imp .inl fun hnew => given_mono (Nat.le_refl _) hle hnew
    · exact (ih h).imp .inr fun hnew => given_mono hle' (Nat.le_refl _) hnew

end Bookkeeping

namespace World

variable {w : World} {g : Region} {id : EntityId}

/-- Whoever is on the map after the fixtures have worked was there before or has just got its
identity. -/
theorem mem_members_worked (h : id ∈ (w.worked g).region.members) :
    id ∈ g.members ∨ id ∈ given w.issued (w.worked g).issued := by
  obtain ⟨e, he⟩ := Option.isSome_iff_exists.mp (ExtTreeMap.mem_iff_isSome_getElem?.mp h)
  obtain hk | ⟨-, -, -, hnew⟩ := (w.outgrows_worked g).find?_cases he
  · obtain ⟨e₀, he₀, -⟩ := (Region.rewrites_advance g).back hk
    exact .inl (ExtTreeMap.mem_iff_isSome_getElem?.mpr (Option.isSome_of_eq_some he₀))
  · exact .inr hnew

/-- Whoever is in use after the turn of a map was in use before or has just got its identity. -/
theorem known_arranged (h : id ∈ (w.arranged g).clearChanges.known) :
    id ∈ g.known ∨ id ∈ given w.issued (w.worked g).issued := by
  rcases List.mem_append.mp h with h | h
  · have hmem : id ∈ (w.worked g).region.members :=
      ExtTreeMap.mem_map.mp (ExtTreeMap.mem_keys.mp h)
    exact (mem_members_worked hmem).imp_left Region.mem_known_of_mem
  · exact (Bookkeeping.known_runAll h).imp_left (List.mem_append_right _)

end World

/-! ### One turn -/

namespace Region

/-- A player is on the map under its new name. -/
theorem hosts_rename {π : Equiv.Perm EntityId} {g : Region} {k : EntityId} (hk : g.Hosts k) :
    (g.rename π).Hosts (π k) := by
  obtain ⟨p, hp, hplayer⟩ := hk
  exact ⟨p.rename π, by rw [find?_rename_apply, hp]; rfl, hplayer⟩

theorem mem_known_of_hosts {g : Region} {k : EntityId} (hk : g.Hosts k) : k ∈ g.known :=
  let ⟨_, hp, _⟩ := hk
  mem_known_of_find? hp

/-- Whoever is in use is in use under another name. -/
theorem mem_known_rename {f : EntityId → EntityId} {g : Region} {id : EntityId} (h : id ∈ g.known) :
    f id ∈ (g.rename f).known := by
  rcases List.mem_append.mp h with h | h
  · exact mem_known_of_mem <|
      Table.mem_rename_of_mem f (ExtTreeMap.mem_map.mpr (ExtTreeMap.mem_keys.mp h))
  · obtain ⟨fixture, hfixture, hid⟩ := List.mem_flatMap.mp h
    refine List.mem_append_right _ (List.mem_flatMap.mpr ⟨_, List.mem_map_of_mem hfixture, ?_⟩)
    cases fixture with
    | gate gate => cases hid
    | spawn s =>
      exact ExtTreeSet.mem_toList.mpr <|
        OrderedSet.mem_rename_of_mem f (ExtTreeSet.mem_toList.mp hid)

/-- A player gets the same messages. -/
theorem Sound.messagesTo_synchronize_rename {π : Equiv.Perm EntityId} {g : Region} (hg : g.Sound)
    (hg' : (g.rename π).Sound) (horder : g.KeepsOrder π) {k : EntityId} (hk : g.Hosts k)
    (range : UInt16) : messagesTo ((g.rename π).synchronize range) (π k) =
      messagesTo (g.synchronize range) k := by
  obtain ⟨p, hp, hplayer⟩ := hk
  have hp' : (g.rename π).find? (π k) = some (p.rename π) := by rw [find?_rename_apply, hp]; rfl
  have hsame : messagesTo (g.synchronize range) p.id = (g.diff p range).toOption.getD [] :=
    messagesTo_synchronize_eq hg.placed hp hplayer
  have hrenamed : messagesTo ((g.rename π).synchronize range) (p.rename π).id =
      ((g.rename π).diff (p.rename π) range).toOption.getD [] :=
    messagesTo_synchronize_eq hg'.placed hp' hplayer
  rw [hg.placed.id_eq hp] at hsame
  rw [hg'.placed.id_eq hp', hg.diff_rename hg' horder] at hrenamed
  rw [hsame, hrenamed]

end Region

namespace World

variable {m : MapId} {f : EntityId → EntityId} {s : Set EntityId} {u v v' w w' : World} {g : Region}

/-- In its turn the same becomes of the map under other names, and as many identities are given
out. -/
theorem arranged_rename {π : Equiv.Perm EntityId} (horder : g.KeepsOrder π)
    (hπ : Shifts π v.issued v'.issued) (hlt : (v.worked g).issued < UInt32.size)
    (hlt' : (v'.worked (g.rename π)).issued < UInt32.size) :
    v'.arranged (g.rename π) = (v.arranged g).rename π ∧ ∃ j,
      (v.worked g).issued = v.issued + j ∧ (v'.worked (g.rename π)).issued = v'.issued + j := by
  have hbooks : Bookkeeping.Mirrors π v.issued v'.issued (v.books g) (v'.books (g.rename π)) :=
    ⟨(Region.rename_advance horder).symm, 0, rfl, rfl⟩
  obtain ⟨hfixtures, hregion, hissued⟩ := hbooks.runAll hπ g.fixtures hlt hlt'
  exact ⟨congrArg₂ Region.fitted hregion hfixtures, hissued⟩

/-! ### One tick -/

/-- Two worlds in which nothing waits have one map in common, up to the names of those who are on it.
The names that matter are in `s`. -/
structure Mirrors (m : MapId) (f : EntityId → EntityId) (s : Set EntityId) (w w' : World) : Prop where
  sound : w.Sound
  sound' : w'.Sound
  idle : w.deferred = []
  idle' : w'.deferred = []
  range : w'.config.range = w.config.range
  region : ∃ g, w.region? m = some g ∧ w'.region? m = some (g.rename f) ∧ ∀ id ∈ g.known, id ∈ s
  renumbers : Renumbers f s w.issued w'.issued

/-- A player is on the map. -/
def Lodges (w : World) (m : MapId) (k : EntityId) : Prop := ∃ g, w.region? m = some g ∧ g.Hosts k

/-- After a calm tick in both worlds they still have the map in common, and its players have been
told the same. -/
theorem Mirrors.tick (h : Mirrors m f s w w') (hcalm : w.Calm) (hcalm' : w'.Calm)
    (hlt : w.tick.2.issued < UInt32.size) (hlt' : w'.tick.2.issued < UInt32.size) :
    (∃ (π : Equiv.Perm EntityId) (s' : Set EntityId), s ⊆ s' ∧ s.EqOn f π ∧
      Mirrors m π s' w.tick.2 w'.tick.2) ∧
    ∀ k, w.Lodges m k → (w.tick.2.Lodges m k ∧ ∃ said,
      w.tick.2.messagesFor k = w.messagesFor k ++ said ∧
        w'.tick.2.messagesFor (f k) = w'.messagesFor (f k) ++ said) := by
  obtain ⟨g, hg, hg', hknown⟩ := h.region
  obtain ⟨v, hturn⟩ := h.sound.exists_turn_of_calm hcalm h.idle hg hlt
  obtain ⟨v', hturn'⟩ := h.sound'.exists_turn_of_calm hcalm' h.idle' hg' hlt'
  -- the identities that will be given out in the turn are named along with those in use
  obtain ⟨π, heq, hπ, hextend⟩ := (h.renumbers.mono hturn.issued_le hturn'.issued_le).extend
  have hname : g.rename f = g.rename π :=
    (h.sound.region hg).2.rename_congr fun id hid => heq (hknown id hid)
  rw [hname] at hturn' hg'
  have horder : g.KeepsOrder π := (h.renumbers.order.congr heq).mono fun id hid =>
    hknown id (Region.mem_known_of_mem hid)
  have hworked := Nat.lt_of_le_of_lt hturn.issued_le' hlt
  have hworked' := Nat.lt_of_le_of_lt hturn'.issued_le' hlt'
  obtain ⟨harranged, j, hj, hj'⟩ := arranged_rename horder hπ hworked hworked'
  have hrenumbers := (hextend j (hj ▸ hworked) (hj' ▸ hworked'))
  have hknown' (id : EntityId) (hid : id ∈ (v.arranged g).clearChanges.known) :
      id ∈ s ∪ given v.issued (v.issued + j) := by
    rw [← hj]
    exact (known_arranged hid).imp_left (hknown id)
  refine ⟨⟨π, _, Set.subset_union_left, heq, h.sound.tick hlt, h.sound'.tick hlt', deferred_tick w,
    deferred_tick w', ?_, ⟨_, hturn.region', ?_, hknown'⟩, ?_⟩, ?_⟩
  · rw [hturn.config, hturn'.config, h.range]
  · rw [hturn'.region', harranged, Region.rename_clearChanges]
  · exact hrenumbers.mono (hj ▸ hturn.issued_le') (hj' ▸ hturn'.issued_le')
  · rintro k ⟨g₁, hg₁, hk⟩
    obtain rfl : g = g₁ := Option.some.inj (hg.symm.trans hg₁)
    have hk' := (v.hosts_arranged g k).mpr hk
    have horder' : (v.arranged g).KeepsOrder π := hrenumbers.order.mono fun id hid =>
      hknown' id (Region.mem_known_of_mem (ExtTreeMap.mem_map.mpr hid))
    have hsound := hturn.sound.arranged hturn.region hworked
    have hsound' := hturn'.sound.arranged hturn'.region hworked'
    rw [harranged] at hsound'
    have hsame := hsound.messagesTo_synchronize_rename hsound' horder' hk' w.config.range
    have hfk : f k = π k := heq (hknown k (Region.mem_known_of_hosts hk))
    refine ⟨⟨_, hturn.region', (Region.hosts_clearChanges k).mpr hk'⟩, _, hturn.messagesFor k hk, ?_⟩
    rw [hfk, hturn'.messagesFor (π k) (Region.hosts_rename hk), h.range, harranged, hsame]

/-! ### A run -/

/-- The world after some ticks in which nothing is asked of it. -/
def after (w : World) : Nat → World
  | 0 => w
  | n + 1 => (w.after n).tick.2

/-- While ticks pass, ever more identities are given out. -/
theorem issued_after_mono (w : World) : Monotone fun n => (w.after n).issued :=
  monotone_nat_of_le_succ fun _ => issued_le_tick _

/-- After some calm ticks the worlds still have the map in common. -/
theorem Mirrors.after (h : Mirrors m f s w w') {n : Nat} (hcalm : ∀ i < n, (w.after i).Calm)
    (hcalm' : ∀ i < n, (w'.after i).Calm) (hlt : (w.after n).issued < UInt32.size)
    (hlt' : (w'.after n).issued < UInt32.size) :
    ∃ f' s', s ⊆ s' ∧ s.EqOn f f' ∧ Mirrors m f' s' (w.after n) (w'.after n) ∧
      ∀ k, w.Lodges m k → (w.after n).Lodges m k := by
  induction n with
  | zero => exact ⟨f, s, subset_rfl, fun _ _ => rfl, h, fun _ hk => hk⟩
  | succ n ih =>
    obtain ⟨f', s', hsub, heq, hmirrors, hlodges⟩ :=
      ih (fun i hi => hcalm i (Nat.lt_succ_of_lt hi)) (fun i hi => hcalm' i (Nat.lt_succ_of_lt hi))
        (Nat.lt_of_le_of_lt (issued_le_tick _) hlt) (Nat.lt_of_le_of_lt (issued_le_tick _) hlt')
    obtain ⟨⟨π, s'', hsub', heq', hmirrors'⟩, hplayers⟩ :=
      hmirrors.tick (hcalm n (Nat.lt_succ_self n)) (hcalm' n (Nat.lt_succ_self n)) hlt hlt'
    exact ⟨π, s'', hsub.trans hsub', heq.trans (heq'.mono hsub), hmirrors',
      fun k hk => (hplayers k (hlodges k hk)).1⟩

/-- All identities in use on the maps are among those that have been given out. -/
def Counts (w : World) : Prop :=
  ∀ map g, w.region? map = some g → ∀ id ∈ g.known, id.val.toNat ≤ w.issued

/-- Let two sound worlds have a map in common, up to the names of those who are on it, and let the
names be in the same order. If nobody stands in a gate for some ticks, then after them the worlds
still have the map in common, where all who were there before go by the same names as before, and in
every tick the players of the map are told the same. -/
theorem replays_of_calm (hw : w.Sound) (hw' : w'.Sound) (hrange : w'.config.range = w.config.range)
    (hcounts : w.Counts) (hcounts' : w'.Counts) (hidle : w.deferred = []) (hidle' : w'.deferred = [])
    (hg : w.region? m = some g) (hg' : w'.region? m = some (g.rename f))
    (horder : KeepsOrder f {id | id ∈ g.known}) (n : Nat) (hcalm : ∀ i < n, (w.after i).Calm)
    (hcalm' : ∀ i < n, (w'.after i).Calm) (hlt : (w.after n).issued < UInt32.size)
    (hlt' : (w'.after n).issued < UInt32.size) :
    (∃ f' g', (∀ id ∈ g.known, f' id = f id) ∧ KeepsOrder f' {id | id ∈ g'.known} ∧
      (w.after n).region? m = some g' ∧ (w'.after n).region? m = some (g'.rename f')) ∧
    ∀ i < n, ∀ k, g.Hosts k → ∃ said,
      (w.after (i + 1)).messagesFor k = (w.after i).messagesFor k ++ said ∧
        (w'.after (i + 1)).messagesFor (f k) = (w'.after i).messagesFor (f k) ++ said := by
  have hrenumbers : Renumbers f {id | id ∈ g.known} w.issued w'.issued :=
    ⟨horder, hcounts m g hg, fun id hid => hcounts' m _ hg' _ (Region.mem_known_rename hid)⟩
  have hmirrors : Mirrors m f {id | id ∈ g.known} w w' :=
    ⟨hw, hw', hidle, hidle', hrange, ⟨g, hg, hg', fun _ hid => hid⟩, hrenumbers⟩
  constructor
  · obtain ⟨f', s', -, heq, hend, -⟩ := hmirrors.after hcalm hcalm' hlt hlt'
    obtain ⟨g₁, hg₁, hg₁', hknown⟩ := hend.region
    exact ⟨f', g₁, fun id hid => (heq hid).symm, hend.renumbers.order.mono hknown, hg₁, hg₁'⟩
  · intro i hi k hk
    have hlti {v : World} (hlt : (v.after n).issued < UInt32.size) :
        (v.after (i + 1)).issued < UInt32.size := Nat.lt_of_le_of_lt (issued_after_mono v hi) hlt
    obtain ⟨f', s', -, heq, hmid, hlodges⟩ :=
      hmirrors.after (fun j hj => hcalm j (Nat.lt_trans hj hi))
        (fun j hj => hcalm' j (Nat.lt_trans hj hi))
        (Nat.lt_of_le_of_lt (issued_le_tick _) (hlti hlt))
        (Nat.lt_of_le_of_lt (issued_le_tick _) (hlti hlt'))
    obtain ⟨-, hplayers⟩ := hmid.tick (hcalm i hi) (hcalm' i hi) (hlti hlt) (hlti hlt')
    obtain ⟨-, said, hsaid, hsaid'⟩ := hplayers k (hlodges k ⟨g, hg, hk⟩)
    rw [← heq (Region.mem_known_of_hosts hk)] at hsaid'
    exact ⟨said, hsaid, hsaid'⟩

/-! ### An example -/

theorem counts_of_all (h : (w.regions.toList.all fun p => p.2.known.all fun id =>
    decide (id.val.toNat ≤ w.issued)) = true) : w.Counts := by
  simp only [List.all_eq_true, decide_eq_true_eq, Prod.forall,
    ExtTreeMap.mem_toList_iff_getElem?_eq_some] at h
  exact h

/-- Two maps with a den each. -/
def dens : Atlas where
  plan map :=
    if map = ⟨1⟩ then some ⟨.clear 120 120,
      [.spawn { area := ⟨1600, 1600, 32, 32⟩, sort := 7, capacity := 2, interval := 0 }]⟩
    else if map = ⟨2⟩ then some ⟨.clear 20 20,
      [.spawn { area := ⟨320, 320, 32, 32⟩, sort := 8, capacity := 2, interval := 0 }]⟩
    else none
  mapName _ := none
  character _ := none

/-- Ann is on the first map, and the other one is not in use. -/
def alone : World := [.enter "Ann"].foldl execute (empty {} dens)

/-- The other map is in use, and somebody else might be there. -/
def accompanied : World := [.activate ⟨2⟩, .allocate, .enter "Ann"].foldl execute (empty {} dens)

/-- The name that comes next. -/
def following (id : EntityId) : EntityId := ⟨id.val + 1⟩

theorem issued_dens : alone.issued = 1 ∧ accompanied.issued = 2 ∧
    (alone.after 2).issued = 3 ∧ (accompanied.after 2).issued = 6 :=
  ⟨by cbv, by cbv, by cbv, by cbv⟩

theorem sound_alone : alone.Sound :=
  (sound_empty {} dens).develops
    (develops_of_allows (Reaches.foldl _ _ (by simp [Allows]) : Reaches execute Allows _ alone))
    (by rw [issued_dens.1]; decide)

theorem sound_accompanied : accompanied.Sound :=
  (sound_empty {} dens).develops
    (develops_of_allows (Reaches.foldl _ _ (by simp [Allows]) : Reaches execute Allows _ accompanied))
    (by rw [issued_dens.2.1]; decide)

theorem calm_alone : ∀ i < 2, (alone.after i).Calm := by
  rintro (_ | _ | i) hi
  · exact calm_of_all (by cbv)
  · exact calm_of_all (by cbv)
  · omega

theorem calm_accompanied : ∀ i < 2, (accompanied.after i).Calm := by
  rintro (_ | _ | i) hi
  · exact calm_of_all (by cbv)
  · exact calm_of_all (by cbv)
  · omega

theorem counts_dens : alone.Counts ∧ accompanied.Counts :=
  ⟨counts_of_all (by cbv), counts_of_all (by cbv)⟩

theorem rename_following :
    (alone.region? ⟨1⟩).map (Region.rename following) = accompanied.region? ⟨1⟩ := by cbv

theorem known_alone : (alone.region? ⟨1⟩).map (fun g => (g.known, (g.find? (.nth 1)).map
    Entity.isPlayer)) = some ([.nth 1], some true) := by cbv

theorem idle_dens : alone.deferred = [] ∧ accompanied.deferred = [] ∧
    accompanied.config.range = alone.config.range := ⟨by cbv, by cbv, by cbv⟩

/-- Two monsters come up near Ann, and whether two others come up on another map does not show. -/
theorem replays_at_the_dens : ∃ g, alone.region? ⟨1⟩ = some g ∧
    accompanied.region? ⟨1⟩ = some (g.rename following) ∧
    (∃ f' g', (∀ id ∈ g.known, f' id = following id) ∧ KeepsOrder f' {id | id ∈ g'.known} ∧
      (alone.after 2).region? ⟨1⟩ = some g' ∧
      (accompanied.after 2).region? ⟨1⟩ = some (g'.rename f')) ∧
    ∃ said, (alone.after 2).messagesFor (.nth 1) = (alone.after 1).messagesFor (.nth 1) ++ said ∧
      (accompanied.after 2).messagesFor (.nth 2) =
        (accompanied.after 1).messagesFor (.nth 2) ++ said := by
  obtain ⟨g, hg, hlist⟩ := Option.map_eq_some_iff.mp known_alone
  obtain ⟨hknown, hfind⟩ := Prod.mk.inj hlist
  obtain ⟨o, ho, hplayer⟩ := Option.map_eq_some_iff.mp hfind
  have hname := rename_following
  rw [hg, Option.map_some] at hname
  -- there is only one identity in use
  have horder : KeepsOrder following {id | id ∈ g.known} := by
    intro a ha b hb hlt
    rw [Set.mem_ofPred_eq, hknown, List.mem_singleton] at ha hb
    rw [ha, hb] at hlt
    cases hlt
  obtain ⟨-, -, hlt, hlt'⟩ := issued_dens
  obtain ⟨hend, htold⟩ := replays_of_calm sound_alone sound_accompanied idle_dens.2.2 counts_dens.1
    counts_dens.2 idle_dens.1 idle_dens.2.1 hg hname.symm horder 2 calm_alone calm_accompanied
    (by rw [hlt]; decide) (by rw [hlt']; decide)
  exact ⟨g, hg, hname.symm, hend, htold 1 (by decide) (.nth 1) ⟨o, ho, hplayer⟩⟩

/-- The two monsters are the second and the third in the one world, and in the other one the third
and the fifth. -/
example : ((alone.after 2).region? ⟨1⟩).map (fun g => g.members.keys) =
      some [.nth 1, .nth 2, .nth 3] ∧
    ((accompanied.after 2).region? ⟨1⟩).map (fun g => g.members.keys) =
      some [.nth 2, .nth 3, .nth 5] := ⟨by cbv, by cbv⟩

end World

end TileWorld
