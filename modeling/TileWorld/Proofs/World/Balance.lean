import TileWorld.Proofs.World.Confinement
import TileWorld.Proofs.World.Loss

/-!
# Everybody is accounted for

In a tick monsters come up, entities are removed, and players fall out of the world because the map
they were sent to has no number left for them. Whoever is on a map after the tick was on one before
it or has come up, and is not among those who were removed or fell; and all of these are counted
(`World.balance_of_reaches`).

A tick is gone through moment by moment (`World.moments`): a map has its turn, or a change that has
waited is carried out. What the moments do to the crowd is put together by `World.Tally.trans`.
-/

namespace TileWorld

open Relation

namespace World

variable {u v v' v'' w : World} {id : EntityId} {map : MapId} {p : Point} {g : Region} {e : Entity}
  {d : Deferred} {report : TickReport}

/-! ### The moments of a tick -/

/-- What happens in a tick at one moment. -/
inductive Moment where
  /-- A map has its turn, up to the changes that wait. -/
  | turn (v : World) (g : Region)
  /-- A change that has waited is carried out. -/
  | change (v : World) (d : Deferred)

/-- What the players of a map are told when they look around in its turn. -/
def Moment.news : Moment → List Delivery
  | .turn v g => (v.arranged g).synchronize v.config.range
  | .change _ _ => []

/-- The moments in which changes are carried out. -/
def applyMoments : World → List Deferred → List Moment
  | _, [] => []
  | v, d :: ds => .change v d :: applyMoments (v.applyOne d).2 ds

/-- The moments in which the changes that wait are carried out. -/
def settleMoments (v : World) : List Moment := applyMoments { v with deferred := [] } v.deferred

/-- The moments in which a map has its turn. -/
def passMoments (map : MapId) : TickReport × World → List Moment
  | (report, v) =>
    match v.region? map with
    | none => []
    | some g => .turn v g :: (v.passRegion g report).2.settleMoments

/-- The moments of the rest of a tick, when some maps are still to have their turn. -/
def restMoments : List MapId → TickReport × World → List Moment
  | [], s => s.2.settleMoments
  | map :: maps, s => passMoments map s ++ restMoments maps (passMap map s)

/-- The moments of a tick. -/
def moments (w : World) : List Moment :=
  restMoments w.regions.keys ({ tick := w.ticks + 1 }, { w with ticks := w.ticks + 1 })

/-! ### Who is somewhere -/

/-- Somebody is on some map. -/
def Resides (w : World) (id : EntityId) : Prop := (w.mapOf id).isSome

/-- All who are on some map. -/
def residents (w : World) : Finset EntityId := w.locations.keys.toFinset

theorem mem_residents : id ∈ w.residents ↔ w.Resides id := by
  rw [residents, List.mem_toFinset, Std.ExtTreeMap.mem_keys, Std.ExtTreeMap.mem_iff_isSome_getElem?]
  rfl

/-- Whoever is on a map has an identity that has been given out. -/
theorem Sound.issued_of_resides (hv : v.Sound) (h : v.Resides id) : v.Issued id := by
  obtain ⟨map, hmap⟩ := Option.isSome_iff_exists.mp h
  exact hv.issued hmap

/-- The same entities are on maps, the same players play, and nobody else is lost. -/
structure SameCrowd (v v' : World) : Prop where
  resides : ∀ k, v'.Resides k ↔ v.Resides k
  plays : ∀ k, v'.Plays k ↔ v.Plays k
  lost : v'.lost = v.lost

/-- Somebody who was on a map is on none any more. -/
structure Misses (id : EntityId) (v v' : World) : Prop where
  resided : v.Resides id
  resides : ∀ k, v'.Resides k ↔ k ≠ id ∧ v.Resides k
  plays : ∀ k, v'.Plays k ↔ k ≠ id ∧ v.Plays k

theorem SameCrowd.trans (h : SameCrowd v v') (h' : SameCrowd v' v'') : SameCrowd v v'' :=
  ⟨fun k => (h'.resides k).trans (h.resides k), fun k => (h'.plays k).trans (h.plays k),
    h'.lost.trans h.lost⟩

theorem SameCrowd.misses (h : SameCrowd v v') (h' : Misses id v' v'') : Misses id v v'' where
  resided := (h.resides id).mp h'.resided
  resides k := by rw [h'.resides, h.resides]
  plays k := by rw [h'.plays, h.plays]

theorem sameCrowd_activate (h : v.activate map = .ok (g, v')) : SameCrowd v v' where
  resides k := by rw [Resides, mapOf, locations_activate h]; rfl
  plays := by
    obtain ⟨-, rfl⟩ | ⟨hmap, plan, -, rfl, -⟩ := activate_eq_ok_iff.mp h
    · exact fun _ => Iff.rfl
    · exact plays_opened hmap plan
  lost := (frame_activate h).lost

theorem Sound.misses_remove (hv : v.Sound) {cause : RemovalCause}
    (h : v.remove id cause = some (e, v')) : Misses id v v' := by
  refine ⟨?_, fun k => ?_, hv.plays_remove h⟩
  · obtain ⟨map, -, -, -, hmap, -⟩ := remove_eq_some_iff.mp h
    rw [Resides, hmap]
    rfl
  · rw [Resides, mapOf_of_remove h]
    by_cases hk : k = id <;> simp [hk, Resides]

/-- Whoever is nowhere can be put on a map in use at a point of it, unless there is no number left. -/
theorem Sound.add_place (hv : v.Sound) (hfree : ¬ v.Resides e.id) (hx : e.publicId = none)
    (hg : v.region? map = some g) (hp : g.terrain.contains p = true) :
    v.add (e.place map p) = (.error (.insertion (.noPublicId e.id map)), v) ∨
      ∃ x g', v.Comes (e.place map p) x g g' := by
  have hnowhere : v.mapOf e.id = none := Option.not_isSome_iff_eq_none.mp hfree
  have hnobody : g.find? e.id = none := by
    refine Option.eq_none_iff_forall_ne_some.mpr fun o ho => ?_
    rw [hv.located.mpr ⟨g, o, hg, ho⟩] at hnowhere
    cases hnowhere
  rcases hins : g.insert (e.place map p) with err | ⟨x, g'⟩
  · refine .inl ?_
    have hact : v.activate map = .ok (g, v) := activate_eq_ok_iff.mpr (.inl ⟨hg, rfl⟩)
    have hcontains : v.locations.contains e.id = false :=
      Bool.eq_false_iff.mpr fun hin => contains_locations.mp hin hnowhere
    have herr : err = .noPublicId e.id map := by
      have hid := (hv.region hg).1
      rw [Region.insert, Region.contains_eq_isSome] at hins
      simp only [Entity.place, hx, hnobody, hp, Option.isSome_none, Bool.or_self, Bool.not_true,
        Bool.false_eq_true, if_false] at hins
      split at hins
      · cases hins
        rw [hid]
      · cases hins
    rw [add]
    simp only [Entity.place] at hins ⊢
    simp only [hcontains, hact, hins, Bool.false_eq_true, if_false, herr]
  · exact .inr ⟨x, g', hnowhere, hg, hins⟩

/-- Whoever goes to another place is on a map as before. -/
theorem Sound.sameCrowd_jump (hv : v.Sound) (h : v.remove id .warp = some (e, v')) {x : PublicId}
    {g' : Region} (h' : v'.Comes (e.place map p) x g g') :
    SameCrowd v (v'.welcome (e.place map p) g') := by
  have hid : (e.place map p).id = id := (hv.issued_remove h).1
  have hmisses := hv.misses_remove h
  refine ⟨fun k => ?_, hv.plays_jump h h', (frame_remove h).lost⟩
  rw [Resides, mapOf_welcome, hid]
  by_cases hk : k = id
  · simp [hk, hmisses.resided]
  · rw [if_neg hk]
    exact (hmisses.resides k).trans (and_iff_right hk)

/-- A warp of somebody who is a player, if it is anywhere, takes nobody off all maps, or the player is
lost because there is no number left for it. -/
theorem Sound.warp_of_plays (hv : v.Sound) (hlt : v.issued < UInt32.size)
    (hplayer : v.Resides id → v.Plays id) (map : MapId) (p : Point) :
    SameCrowd v (v.warp id map p).2 ∨ Misses id v (v.warp id map p).2 ∧ v.Plays id ∧
      (v.warp id map p).2.lost = v.lost ++ [id] ∧
        (v.warp id map p).1 = .error (.insertion (.noPublicId id map)) := by
  have hsame : SameCrowd v v := ⟨fun _ => Iff.rfl, fun _ => Iff.rfl, rfl⟩
  rw [warp]
  by_cases hin : v.locations.contains id = true
  swap
  · simp only [hin, Bool.not_false, if_true]
    exact .inl hsame
  have hplays : v.Plays id := hplayer (Option.isSome_iff_ne_none.mpr (contains_locations.mp hin))
  rcases hact : v.activate map with err | ⟨g, v₁⟩
  · simp only [hin, Bool.not_true, Bool.false_eq_true, if_false]
    exact .inl hsame
  have hopens := sameCrowd_activate hact
  by_cases hp : g.terrain.contains p = true
  swap
  · simp only [hin, hp, Bool.not_true, Bool.not_false, Bool.false_eq_true, if_false, if_true]
    exact .inl hopens
  have hv₁ : v₁.Sound :=
    hv.develops (t := {}) (develops_activate hact) ((frame_activate hact).issued.symm ▸ hlt)
  rcases hrem : v₁.remove id .warp with _ | ⟨e, v₂⟩
  · simp only [hin, hp, hrem, Bool.not_true, Bool.false_eq_true, if_false]
    exact .inl hopens
  have hid : e.id = id := (hv₁.issued_remove hrem).1
  have hmisses := hv₁.misses_remove hrem
  have hgone : ¬ v₂.Resides e.id := by
    rw [hid, hmisses.resides]
    exact fun h => h.1 rfl
  have hnumber : e.publicId = none := by
    obtain ⟨m, g₀, leaving, g', -, -, -, hrem', -⟩ := remove_eq_some_iff.mp hrem
    obtain ⟨e₀, -, rfl, -⟩ := Region.remove_eq_some_iff.mp hrem'
    rfl
  have hconfined : ConfinedTo (fun _ => True) (fun _ _ => True) v₁ v₂ :=
    confinedTo_remove hrem (fun _ _ => trivial) fun _ _ => trivial
  obtain ⟨g₂, hg₂, hground⟩ := hconfined.ground map g (region?_of_activate hact)
  obtain hadd | ⟨x, g', hcomes⟩ :=
    (hv₁.remove hrem).add_place hgone hnumber hg₂ (hground.terrain ▸ hp)
  · -- the map is full, and the player falls
    have hplays₁ : e.isPlayer = true :=
      (hv₁.plays_iff_of_remove hrem).mp ((hopens.plays id).mpr hplays)
    have hlost : v₂.lost = v.lost := (frame_remove hrem).lost.trans hopens.lost
    have hfalls := hopens.misses hmisses
    rw [hid] at hadd
    simp only [hin, hp, hrem, hadd, hplays₁, Bool.not_true, Bool.false_eq_true, if_false, if_true]
    exact .inr ⟨⟨hfalls.resided, hfalls.resides, hfalls.plays⟩, hplays,
      congrArg (· ++ [id]) hlost, trivial⟩
  · simp only [hin, hp, hrem, hcomes.add, Bool.not_true, Bool.false_eq_true, if_false]
    exact .inl (hopens.trans (hv₁.sameCrowd_jump hrem hcomes))

/-! ### Tallies -/

/-- Somebody comes up on a map in its turn, and is not a player. -/
def ComesUp (ms : List Moment) (id : EntityId) : Prop :=
  ∃ v g, .turn v g ∈ ms ∧ ¬ v.Resides id ∧
    ∃ report e, (v.passRegion g report).2.Finds g.id id e ∧ e.isPlayer = false

/-- The removal of somebody who is on a map is carried out. -/
def IsRemoved (ms : List Moment) (id : EntityId) : Prop :=
  ∃ v cause, .change v (.remove id cause) ∈ ms ∧ v.Resides id

/-- A player is to be taken to a map that has no number left for it. -/
def IsRefused (ms : List Moment) (id : EntityId) : Prop :=
  ∃ v map p, .change v (.warp id map p) ∈ ms ∧ v.Plays id ∧
    (v.warp id map p).1 = .error (.insertion (.noPublicId id map))

/-- What some moments do to the crowd: those in `S` come up, those in `R` are removed and those in `L`
are lost. -/
structure Tally (ms : List Moment) (S R L : List EntityId) (v v' : World) : Prop where
  resides : ∀ id, v'.Resides id ↔ (v.Resides id ∨ id ∈ S) ∧ id ∉ R ++ L
  known : ∀ id ∈ R ++ L, v.Resides id ∨ id ∈ S
  /-- Nobody comes up twice. -/
  comesOnce : S.Nodup
  /-- Nobody is removed twice or lost twice, or removed and lost. -/
  goesOnce : (R ++ L).Nodup
  fresh : ∀ id ∈ S, ¬ v.Issued id ∧ v'.Issued id
  issued_le : v.issued ≤ v'.issued
  lost : v'.lost = v.lost ++ L
  comesUp : ∀ id ∈ S, ComesUp ms id
  removed : ∀ id ∈ R, IsRemoved ms id
  refused : ∀ id ∈ L, IsRefused ms id

variable {ms ms' : List Moment} {S S' R R' L L' : List EntityId}

theorem ComesUp.mono (h : ComesUp ms id) (hsub : ms ⊆ ms') : ComesUp ms' id := by
  obtain ⟨v, g, hmem, hrest⟩ := h
  exact ⟨v, g, hsub hmem, hrest⟩

theorem IsRemoved.mono (h : IsRemoved ms id) (hsub : ms ⊆ ms') : IsRemoved ms' id := by
  obtain ⟨v, cause, hmem, hrest⟩ := h
  exact ⟨v, cause, hsub hmem, hrest⟩

theorem IsRefused.mono (h : IsRefused ms id) (hsub : ms ⊆ ms') : IsRefused ms' id := by
  obtain ⟨v, map, p, hmem, hrest⟩ := h
  exact ⟨v, map, p, hsub hmem, hrest⟩

/-- Nobody comes up, is removed or is refused as long as the same entities are on maps. -/
theorem SameCrowd.tally (h : SameCrowd v v') (hle : v.issued ≤ v'.issued) (ms : List Moment) :
    Tally ms [] [] [] v v' where
  resides id := by simp [h.resides]
  known := by simp
  comesOnce := List.nodup_nil
  goesOnce := List.nodup_nil
  fresh := by simp
  issued_le := hle
  lost := h.lost.trans (List.append_nil _).symm
  comesUp := by simp
  removed := by simp
  refused := by simp

/-- Tallies of moments that follow each other are put together. -/
theorem Tally.trans (h : Tally ms S R L v v') (hv : v.Sound) (h' : Tally ms' S' R' L' v' v'') :
    Tally (ms ++ ms') (S ++ S') (R ++ R') (L ++ L') v v'' := by
  have hperm : (R ++ R' ++ (L ++ L')).Perm (R ++ L ++ (R' ++ L')) := by
    refine List.perm_iff_count.mpr fun k => ?_
    simp only [List.count_append]
    omega
  have hmem (k : EntityId) : k ∈ R ++ R' ++ (L ++ L') ↔ k ∈ R ++ L ∨ k ∈ R' ++ L' := by
    rw [hperm.mem_iff, List.mem_append]
  -- whoever goes had an identity before, so that it does not come up again
  have hissued (k : EntityId) (hk : k ∈ R ++ L) : v'.Issued k := by
    obtain hresides | hcame := h.known k hk
    · exact (hv.issued_of_resides hresides).of_le h.issued_le
    · exact (h.fresh k hcame).2
  have hnever (k : EntityId) (hk : k ∈ S') : k ∉ R ++ L := fun hgone =>
    (h'.fresh k hk).1 (hissued k hgone)
  have hsubset : ms ⊆ ms ++ ms' := List.subset_append_left ms ms'
  have hsubset' : ms' ⊆ ms ++ ms' := List.subset_append_right ms ms'
  refine ⟨fun k => ?_, fun k hk => ?_, ?_, ?_, fun k hk => ?_, Nat.le_trans h.issued_le h'.issued_le,
    by rw [h'.lost, h.lost, List.append_assoc], fun k hk => ?_, fun k hk => ?_, fun k hk => ?_⟩
  · have hk := hnever k
    rw [h'.resides, h.resides]
    simp only [List.mem_append] at hk ⊢
    tauto
  · obtain hk | hk := (hmem k).mp hk
    · exact (h.known k hk).imp_right (List.mem_append_left S')
    · obtain hresides | hcame := h'.known k hk
      · exact ((h.resides k).mp hresides).1.imp_right (List.mem_append_left S')
      · exact .inr (List.mem_append_right S hcame)
  · refine List.nodup_append.mpr ⟨h.comesOnce, h'.comesOnce, fun k hk k' hk' heq => ?_⟩
    exact (h'.fresh k' hk').1 (heq ▸ (h.fresh k hk).2)
  · refine hperm.nodup_iff.mpr (List.nodup_append.mpr ⟨h.goesOnce, h'.goesOnce, ?_⟩)
    rintro k hk k' hk' rfl
    obtain hresides | hcame := h'.known k hk'
    · exact ((h.resides k).mp hresides).2 hk
    · exact hnever k hcame hk
  · obtain hk | hk := List.mem_append.mp hk
    · exact ⟨(h.fresh k hk).1, (h.fresh k hk).2.of_le h'.issued_le⟩
    · exact ⟨fun hold => (h'.fresh k hk).1 (hold.of_le h.issued_le), (h'.fresh k hk).2⟩
  · exact (List.mem_append.mp hk).elim (fun hk => (h.comesUp k hk).mono hsubset)
      fun hk => (h'.comesUp k hk).mono hsubset'
  · exact (List.mem_append.mp hk).elim (fun hk => (h.removed k hk).mono hsubset)
      fun hk => (h'.removed k hk).mono hsubset'
  · exact (List.mem_append.mp hk).elim (fun hk => (h.refused k hk).mono hsubset)
      fun hk => (h'.refused k hk).mono hsubset'

/-- Somebody is not on any map any more, and this is put down as a removal or as a loss. -/
theorem Misses.tally (h : Misses id v v') (hle : v.issued ≤ v'.issued) (hRL : R ++ L = [id])
    (hlost : v'.lost = v.lost ++ L) (hremoved : ∀ k ∈ R, IsRemoved ms k)
    (hrefused : ∀ k ∈ L, IsRefused ms k) : Tally ms [] R L v v' where
  resides k := by
    rw [hRL, h.resides]
    simp [and_comm]
  known k hk := by
    rw [hRL, List.mem_singleton] at hk
    exact .inl (hk ▸ h.resided)
  comesOnce := List.nodup_nil
  goesOnce := hRL ▸ List.nodup_singleton id
  fresh := by simp
  issued_le := hle
  lost := hlost
  comesUp := by simp
  removed := hremoved
  refused := hrefused

/-! ### Changes that are carried out -/

/-- Whoever is to be taken elsewhere is a player, if it is anywhere. -/
def Escorts (v : World) (ds : List Deferred) : Prop :=
  ∀ id map p, .warp id map p ∈ ds → v.Resides id → v.Plays id

theorem SameCrowd.escorts (h : SameCrowd v v') {ds : List Deferred} (hv : v.Escorts ds) :
    v'.Escorts ds :=
  fun id map p hmem hresides =>
    (h.plays id).mpr (hv id map p hmem ((h.resides id).mp hresides))

theorem Misses.escorts (h : Misses id v v') {ds : List Deferred} (hv : v.Escorts ds) :
    v'.Escorts ds := by
  intro k map p hmem hresides
  obtain ⟨hne, hresides⟩ := (h.resides k).mp hresides
  exact (h.plays k).mpr ⟨hne, hv k map p hmem hresides⟩

theorem Sound.tally_applyOne (hv : v.Sound) (hlt : v.issued < UInt32.size) {ds : List Deferred}
    (hescorts : v.Escorts (d :: ds)) : (v.applyOne d).2.Escorts ds ∧
      ∃ R L, Tally [.change v d] [] R L v (v.applyOne d).2 ∧ (v.applyOne d).1.1 = R.length := by
  have hle : v.issued ≤ (v.applyOne d).2.issued :=
    (develops_applyOne (mayApply_ofTick d) : Develops .ofTick v _).issued_le
  have hlater : v.Escorts ds := fun id map p hmem => hescorts id map p (List.mem_cons_of_mem d hmem)
  cases d with
  | remove id cause =>
    rw [applyOne] at hle ⊢
    rcases hrem : v.remove id cause with _ | ⟨e, v'⟩
    · have hsame : SameCrowd v v := ⟨fun _ => Iff.rfl, fun _ => Iff.rfl, rfl⟩
      exact ⟨hlater, [], [], hsame.tally (Nat.le_refl _) _, rfl⟩
    · rw [hrem] at hle
      have hmisses := hv.misses_remove hrem
      refine ⟨hmisses.escorts hlater, [id], [], hmisses.tally hle rfl ?_ ?_ (by simp), rfl⟩
      · exact (frame_remove hrem).lost.trans (List.append_nil _).symm
      · rintro k hk
        rw [List.mem_singleton.mp hk]
        exact ⟨v, cause, List.mem_singleton_self _, hmisses.resided⟩
  | warp id map p =>
    have hworld : (v.applyOne (.warp id map p)).2 = (v.warp id map p).2 := by
      rw [applyOne]
      rcases v.warp id map p with ⟨_ | _, v'⟩ <;> rfl
    have hcount : (v.applyOne (.warp id map p)).1.1 = 0 := by
      rw [applyOne]
      rcases v.warp id map p with ⟨_ | _, v'⟩ <;> rfl
    rw [hworld] at hle ⊢
    rw [hcount]
    obtain hsame | ⟨hmisses, hplays, hlost, herr⟩ :=
      hv.warp_of_plays hlt (hescorts id map p List.mem_cons_self) map p
    · exact ⟨hsame.escorts hlater, [], [], hsame.tally hle _, rfl⟩
    · refine ⟨hmisses.escorts hlater, [], [id], hmisses.tally hle rfl hlost (by simp) ?_, rfl⟩
      rintro k hk
      rw [List.mem_singleton.mp hk]
      exact ⟨v, map, p, List.mem_singleton_self _, hplays, herr⟩

/-- The balance of all changes that have waited: they are counted as far as somebody was removed. -/
theorem Sound.tally_applyAll (hv : v.Sound) {ds : List Deferred}
    (hlt : (v.applyAll ds).2.issued < UInt32.size) (hescorts : v.Escorts ds) :
    ∃ R L, Tally (applyMoments v ds) [] R L v (v.applyAll ds).2 ∧
      (v.applyAll ds).1.1 = R.length := by
  induction ds generalizing v with
  | nil =>
    have hsame : SameCrowd v v := ⟨fun _ => Iff.rfl, fun _ => Iff.rfl, rfl⟩
    exact ⟨[], [], hsame.tally (Nat.le_refl _) _, rfl⟩
  | cons d ds ih =>
    have hone : Develops .ofTick v (v.applyOne d).2 := develops_applyOne (mayApply_ofTick d)
    have hrest := (v.applyOne d).2.develops_applyAll_ofTick ds
    have hlt' : (v.applyOne d).2.issued < UInt32.size := Nat.lt_of_le_of_lt hrest.issued_le hlt
    obtain ⟨hescorts', R, L, htally, hcount⟩ :=
      hv.tally_applyOne (Nat.lt_of_le_of_lt hone.issued_le hlt') hescorts
    obtain ⟨R', L', htally', hcount'⟩ := ih (hv.develops hone hlt') hlt hescorts'
    refine ⟨R ++ R', L ++ L', htally.trans hv htally', ?_⟩
    rw [List.length_append, ← hcount, ← hcount']
    rfl

/-- What the moments since a report do to the crowd, with what has been added to the report. -/
structure Reported (ms : List Moment) (S R L : List EntityId) (s s' : TickReport × World) : Prop where
  tally : Tally ms S R L s.2 s'.2
  spawned : s'.1.spawned = s.1.spawned + S.length
  removed : s'.1.removed = s.1.removed + R.length
  deliveries : s'.1.deliveries = s.1.deliveries + (ms.flatMap Moment.news).length

theorem Reported.trans {s s' s'' : TickReport × World} (h : Reported ms S R L s s')
    (hs : s.2.Sound) (h' : Reported ms' S' R' L' s' s'') :
    Reported (ms ++ ms') (S ++ S') (R ++ R') (L ++ L') s s'' where
  tally := h.tally.trans hs h'.tally
  spawned := by rw [h'.spawned, h.spawned, List.length_append, Nat.add_assoc]
  removed := by rw [h'.removed, h.removed, List.length_append, Nat.add_assoc]
  deliveries := by
    rw [h'.deliveries, h.deliveries, List.flatMap_append, List.length_append, Nat.add_assoc]

theorem news_applyMoments (v : World) (ds : List Deferred) :
    (applyMoments v ds).flatMap Moment.news = [] := by
  induction ds generalizing v with
  | nil => rfl
  | cons d ds ih => exact ih (v.applyOne d).2

/-- The end of a pass is reported as it has happened. -/
theorem Sound.reported_settle (hv : v.Sound) (hescorts : v.Escorts v.deferred) (report : TickReport)
    (hlt : (v.settle report).2.issued < UInt32.size) :
    ∃ R L, Reported v.settleMoments [] R L (report, v) (v.settle report) := by
  have hclear : { v with deferred := [] }.Sound := hv.congr rfl rfl (Nat.le_refl _)
  have hnote : SameCrowd v { v with deferred := [] } := ⟨fun _ => Iff.rfl, fun _ => Iff.rfl, rfl⟩
  have hescorts' : { v with deferred := [] }.Escorts v.deferred := hescorts
  obtain ⟨R, L, htally, hcount⟩ := hclear.tally_applyAll hlt hescorts'
  refine ⟨R, L, (hnote.tally (Nat.le_refl _) []).trans hv htally, rfl,
    congrArg (report.removed + ·) hcount, ?_⟩
  rw [settleMoments, news_applyMoments]
  rfl

end World

/-! ### The turn of a map -/

namespace Bookkeeping

/-- The monsters that have come up since the turn began, while the fixtures of the map work. -/
structure Roll (w : World) (b : Bookkeeping) (S : List EntityId) : Prop where
  count : S.length = b.spawned
  nodup : S.Nodup
  fresh : ∀ id ∈ S, ¬ w.Issued id ∧ (b.apply w).Issued id
  here : ∀ id ∈ S, ∃ e, b.region.find? id = some e ∧ e.isPlayer = false
  listed : ∀ id, (b.locations[id]?).isSome ↔ w.Resides id ∨ id ∈ S
  issued_le : w.issued ≤ b.issued

variable {w : World} {b : Bookkeeping} {S : List EntityId}

theorem Roll.run (hb : b.Roll w S) (f : Fixture) (hlt : (b.run f).2.issued < UInt32.size) :
    (b.run f).2.Roll w (S ++ (b.raises? f).toList) := by
  obtain ⟨random, ⟨hnone, ⟨ps, map, p, -, heq⟩ | heq | heq⟩ | ⟨hsome, sort, p, x, g', hins, heq⟩⟩ :=
    b.run_cases f
  all_goals rw [heq] at hlt ⊢
  · rw [hnone, Option.toList_none, List.append_nil]
    exact ⟨hb.count, hb.nodup, hb.fresh, hb.here, hb.listed, hb.issued_le⟩
  · rw [hnone, Option.toList_none, List.append_nil]
    exact ⟨hb.count, hb.nodup, hb.fresh, hb.here, hb.listed, hb.issued_le⟩
  · rw [hnone, Option.toList_none, List.append_nil]
    refine ⟨hb.count, hb.nodup, fun id hid => ⟨(hb.fresh id hid).1, ?_⟩, hb.here, hb.listed,
      Nat.le_succ_of_le hb.issued_le⟩
    exact (hb.fresh id hid).2.of_le (Nat.le_succ _)
  · rw [hsome, Option.toList_some]
    -- the monster has an identity that had not been given out
    have hnew : ¬ (b.apply w).Issued (.nth (b.issued + 1)) := World.not_issued_nth hlt
    have hnot : .nth (b.issued + 1) ∉ S := fun hmem => hnew (hb.fresh _ hmem).2
    refine ⟨?_, List.nodup_append.mpr ⟨hb.nodup, List.nodup_singleton _, fun id hid k hk heq => ?_⟩,
      fun id hid => ?_, fun id hid => ?_, fun id => ?_, Nat.le_succ_of_le hb.issued_le⟩
    · rw [List.length_append, hb.count]
      rfl
    · rw [List.mem_singleton.mp hk] at heq
      exact hnot (heq ▸ hid)
    · obtain hid | hid := List.mem_append.mp hid
      · exact ⟨(hb.fresh id hid).1, (hb.fresh id hid).2.of_le (Nat.le_succ _)⟩
      · rw [List.mem_singleton.mp hid]
        exact ⟨fun h => hnew (h.of_le hb.issued_le), b.issued + 1, Nat.succ_pos _, Nat.le_refl _, rfl⟩
    · have hfind := Region.find?_mark_insert hins id
      by_cases heq : id = .nth (b.issued + 1)
      · exact ⟨_, hfind.trans (if_pos heq), rfl⟩
      · obtain ⟨e, he, hplayer⟩ := hb.here id
          ((List.mem_append.mp hid).resolve_right fun h => heq (List.mem_singleton.mp h))
        exact ⟨e, hfind.trans ((if_neg heq).trans he), hplayer⟩
    · show ((b.locations.insert (.nth (b.issued + 1)) b.region.id)[id]?).isSome ↔ _
      rw [Table.getElem?_insert, List.mem_append, List.mem_singleton]
      by_cases heq : id = .nth (b.issued + 1)
      · simp [heq]
      · rw [if_neg heq, hb.listed]
        simp [heq]

/-- While several fixtures work, those come up whom they bring up. -/
theorem Roll.runAll (hb : b.Roll w S) (fs : List Fixture)
    (hlt : (b.runAll fs).2.issued < UInt32.size) :
    (b.runAll fs).2.Roll w (S ++ (b.raised fs).flatMap Option.toList) := by
  induction fs generalizing b S with
  | nil => rwa [raised, List.flatMap_nil, List.append_nil]
  | cons f fs ih =>
    have hle := (b.run f).2.issued_le_runAll fs
    rw [raised, List.flatMap_cons, ← List.append_assoc]
    exact ih (hb.run f (Nat.lt_of_le_of_lt hle hlt)) hlt

end Bookkeeping

namespace World

variable {u v v' v'' w : World} {id : EntityId} {map : MapId} {p : Point} {g : Region} {e : Entity}
  {d : Deferred} {report : TickReport}

/-- Those come up in the turn of a map whom its fixtures bring up. -/
theorem roll_worked (v : World) (g : Region) (hlt : (v.worked g).issued < UInt32.size) :
    (v.worked g).Roll v (((v.books g).raised g.fixtures).flatMap Option.toList) := by
  have hstart : (v.books g).Roll v [] := by
    refine ⟨rfl, List.nodup_nil, ?_, ?_, fun id => ?_, Nat.le_refl _⟩
    · simp
    · simp
    · simp [books, Resides, mapOf]
  exact hstart.runAll g.fixtures hlt

/-- In the turn of a map nobody goes. -/
theorem Sound.reported_passRegion (hv : v.Sound) (hg : v.region? map = some g) (report : TickReport)
    (hlt : (v.passRegion g report).2.issued < UInt32.size) :
    ∃ S, Reported [.turn v g] S [] [] (report, v) (v.passRegion g report) := by
  have hid : g.id = map := (hv.region hg).1
  have hS := v.roll_worked g hlt
  have hresides (k : EntityId) : (v.passRegion g report).2.Resides k ↔ v.Resides k ∨
      k ∈ ((v.books g).raised g.fixtures).flatMap Option.toList := hS.listed k
  refine ⟨_, ⟨fun k => ?_, by simp, hS.nodup, List.nodup_nil, hS.fresh, hS.issued_le,
    (List.append_nil _).symm, fun k hk => ?_, by simp, by simp⟩, ?_, rfl, ?_⟩
  · rw [hresides]
    simp
  · obtain ⟨e, he, hplayer⟩ := hS.here k hk
    refine ⟨v, g, List.mem_singleton_self _, ?_, report, e.clearChanges, ?_, hplayer⟩
    · exact fun h => (hS.fresh k hk).1 (hv.issued_of_resides h)
    · exact (finds_turn_iff hid report).mpr (.inr ⟨hid, e, he, rfl⟩)
  · exact congrArg (report.spawned + ·) hS.count.symm
  · simp only [List.flatMap_cons, List.flatMap_nil, List.append_nil]
    rfl

/-- Whoever is put down for a warp in the turn of a map has stood in a gate of the map. -/
theorem Sound.escorts_turn (hv : v.Sound) (hunwarped : v.Unwarped) (hg : v.region? map = some g)
    (report : TickReport) (hlt : (v.passRegion g report).2.issued < UInt32.size) :
    (v.passRegion g report).2.Escorts (v.passRegion g report).2.deferred := by
  intro id target p hmem _
  obtain ⟨e, ⟨g', hg', he⟩, hplayer⟩ := finds_of_sent hv hunwarped hg report hlt hmem
  exact ⟨map, g', hg', e, he, hplayer⟩

/-- The pass of a map is reported as it has happened. -/
theorem Sound.reported_passMap (hv : v.Sound) (hunwarped : v.Unwarped) (map : MapId)
    (report : TickReport) (hlt : (World.passMap map (report, v)).2.issued < UInt32.size) :
    ∃ S R L, Reported (passMoments map (report, v)) S R L (report, v)
      (World.passMap map (report, v)) := by
  rw [World.passMap] at hlt ⊢
  rw [passMoments]
  rcases hg : v.region? map with _ | g
  · have hsame : SameCrowd v v := ⟨fun _ => Iff.rfl, fun _ => Iff.rfl, rfl⟩
    exact ⟨[], [], [], hsame.tally (Nat.le_refl _) [], rfl, rfl, rfl⟩
  · simp only [hg] at hlt ⊢
    have hsettle := (v.passRegion g report).2.develops_settle_ofTick (v.passRegion g report).1
    have hlt' := Nat.lt_of_le_of_lt hsettle.issued_le hlt
    have hturn := hv.turn hg report hlt'
    obtain ⟨S, hfirst⟩ := hv.reported_passRegion hg report hlt'
    obtain ⟨R, L, hthen⟩ := hturn.reported_settle (hv.escorts_turn hunwarped hg report hlt')
      (v.passRegion g report).1 hlt
    exact ⟨_, _, _, hfirst.trans hv hthen⟩

/-! ### A whole tick -/

/-- The rest of a tick, when some maps are still to have their turn. -/
def restOfTick (maps : List MapId) (s : TickReport × World) : TickReport × World :=
  let (report, v) := maps.foldl (fun s map => passMap map s) s
  v.settle report

theorem tick_eq_restOfTick (w : World) : w.tick =
    restOfTick w.regions.keys ({ tick := w.ticks + 1 }, { w with ticks := w.ticks + 1 }) := rfl

theorem develops_restOfTick (maps : List MapId) (s : TickReport × World) :
    Develops .ofTick s.2 (restOfTick maps s).2 := by
  induction maps generalizing s with
  | nil => exact s.2.develops_settle_ofTick s.1
  | cons map maps ih => exact (s.2.develops_passMap_ofTick map s.1).trans (ih (passMap map s))

/-- The rest of a tick is reported as it has happened. -/
theorem Sound.reported_rest {maps : List MapId} {s : TickReport × World} (hs : s.2.Sound)
    (hunwarped : s.2.Unwarped) (hlt : (restOfTick maps s).2.issued < UInt32.size) :
    ∃ S R L, Reported (restMoments maps s) S R L s (restOfTick maps s) := by
  induction maps generalizing s with
  | nil =>
    have hescorts : s.2.Escorts s.2.deferred := fun id map p hmem => absurd hmem (hunwarped id map p)
    obtain ⟨R, L, hsettle⟩ := hs.reported_settle hescorts s.1 hlt
    exact ⟨[], R, L, hsettle⟩
  | cons map maps ih =>
    have hthen := develops_restOfTick maps (World.passMap map s)
    have hlt' := Nat.lt_of_le_of_lt hthen.issued_le hlt
    obtain ⟨S, R, L, hfirst⟩ := hs.reported_passMap hunwarped map s.1 hlt'
    obtain ⟨S', R', L', hthen⟩ :=
      ih (hs.passMap map s.1 hlt') (Unwarped.passMap hunwarped map s.1) hlt
    exact ⟨_, _, _, hfirst.trans hs hthen⟩

/-- Every map that is still to have its turn is counted once it has had it. -/
theorem maps_restOfTick {maps : List MapId} {s : TickReport × World}
    (h : ∀ map ∈ maps, (s.2.region? map).isSome) :
    (restOfTick maps s).1.maps = s.1.maps + maps.length := by
  induction maps generalizing s with
  | nil => rfl
  | cons map maps ih =>
    obtain ⟨g, hg⟩ := Option.isSome_iff_exists.mp (h map List.mem_cons_self)
    have hcount : (passMap map s).1.maps = s.1.maps + 1 := by
      obtain ⟨report, v⟩ := s
      have hg : v.region? map = some g := hg
      rw [passMap, hg]
      rfl
    have hinUse (m : MapId) (hm : m ∈ maps) : ((passMap map s).2.region? m).isSome :=
      (s.2.develops_passMap_ofTick map s.1).keeps (P := fun v => (v.region? m).isSome)
        (fun h => h.isSome_region?) (h m (List.mem_cons_of_mem map hm))
    have hrest := ih hinUse
    rw [hcount] at hrest
    rw [List.length_cons, Nat.add_comm maps.length 1, ← Nat.add_assoc, ← hrest]
    rfl

/-! ### What is carried out has waited -/

/-- A removal that is carried out has waited before the tick. -/
theorem mem_deferred_of_mem_applyMoments {ds : List Deferred} (h : .change u d ∈ applyMoments v ds) :
    d ∈ ds := by
  induction ds generalizing v with
  | nil => cases h
  | cons d' ds ih =>
    obtain heq | h := List.mem_cons.mp h
    · cases heq
      exact List.mem_cons_self
    · exact List.mem_cons_of_mem d' (ih h)

theorem mem_deferred_of_mem_restMoments {maps : List MapId} {s : TickReport × World}
    {cause : RemovalCause} (h : .change u (.remove id cause) ∈ restMoments maps s) :
    .remove id cause ∈ s.2.deferred := by
  induction maps generalizing s with
  | nil => exact mem_deferred_of_mem_applyMoments h
  | cons map maps ih =>
    obtain h | h := List.mem_append.mp h
    · obtain ⟨report, v⟩ := s
      rw [passMoments] at h
      split at h
      · cases h
      · obtain heq | h := List.mem_cons.mp h
        · cases heq
        · exact mem_deferred_worked (mem_deferred_of_mem_applyMoments h)
    · exact mem_deferred_passMap (ih h)

/-- In a run, after any tick those who are on maps are those who were on maps before or have come up,
but for those who were removed and those who were lost. Whoever came up has an identity that had not
been given out, whoever was removed was removed because its removal had waited, and whoever was lost
is a player that was sent to a map with no number left for it; nobody was removed and lost. The report
counts those who came up and those who were removed, the maps in use when the tick began, and what
players were told when they looked around. Nothing waits after the tick, and nobody is on two maps. -/
theorem balance_of_reaches {config : WorldConfig} {atlas : Atlas} {w : World}
    (h : Reaches execute Allows (empty config atlas) w) (hlt : w.tick.2.issued < UInt32.size) :
    (∃ (S R : Finset EntityId) (L : List EntityId),
      w.tick.2.residents = (w.residents ∪ S) \ (R ∪ L.toFinset) ∧
      S.card = w.tick.1.spawned ∧ (∀ id ∈ S, ¬ w.Issued id ∧ ComesUp w.moments id) ∧
      R.card = w.tick.1.removed ∧ R ∪ L.toFinset ⊆ w.residents ∪ S ∧ Disjoint R L.toFinset ∧
      (∀ id ∈ R, (∃ cause, .remove id cause ∈ w.deferred) ∧ IsRemoved w.moments id) ∧
      w.tick.2.lost = w.lost ++ L ∧ L.Nodup ∧ ∀ id ∈ L, IsRefused w.moments id) ∧
    w.tick.2.deferred = [] ∧
    (∀ id ∈ w.tick.2.residents, ∃! map, ∃ e, w.tick.2.Finds map id e) ∧
    w.tick.1.maps = w.regions.size ∧
    w.tick.1.deliveries = (w.moments.flatMap Moment.news).length ∧
    ∀ v g, .turn v g ∈ w.moments → ∀ report,
      (v.passRegion g report).2.outbox = v.outbox ++ (Moment.turn v g).news := by
  have hempty : (empty config atlas).Sound := sound_empty config atlas
  have hle := w.develops_tick_ofTick.issued_le
  have hw : w.Sound := hempty.develops (develops_of_allows h) (Nat.lt_of_le_of_lt hle hlt)
  have hstart : { w with ticks := w.ticks + 1 }.Sound := hw.congr rfl rfl (Nat.le_refl _)
  have hunwarped : { w with ticks := w.ticks + 1 }.Unwarped :=
    Unwarped.congr (unwarped_of_reaches h) rfl
  have hwhole : ∃ S R L, Reported w.moments S R L
      ({ tick := w.ticks + 1 }, { w with ticks := w.ticks + 1 }) w.tick :=
    Sound.reported_rest hstart hunwarped hlt
  obtain ⟨S, R, L, htally, hspawned, hremoved, hdeliveries⟩ := hwhole
  have hgoes := List.nodup_append.mp htally.goesOnce
  refine ⟨⟨S.toFinset, R.toFinset, L, ?_, ?_, ?_, ?_, ?_, ?_, ?_, htally.lost, hgoes.2.1,
    htally.refused⟩, w.deferred_tick, ?_, ?_, ?_, fun v g _ report => rfl⟩
  · ext id
    simp only [mem_residents, htally.resides, Finset.mem_sdiff, Finset.mem_union, List.mem_toFinset,
      List.mem_append]
    rfl
  · rw [List.toFinset_card_of_nodup htally.comesOnce, hspawned, Nat.zero_add]
  · intro id hid
    have hid := List.mem_toFinset.mp hid
    exact ⟨(htally.fresh id hid).1, htally.comesUp id hid⟩
  · rw [List.toFinset_card_of_nodup hgoes.1, hremoved, Nat.zero_add]
  · intro id hid
    rw [Finset.mem_union, mem_residents, List.mem_toFinset]
    refine htally.known id ?_
    simpa using hid
  · rw [Finset.disjoint_left]
    intro id hid hlost
    exact hgoes.2.2 id (List.mem_toFinset.mp hid) id (List.mem_toFinset.mp hlost) rfl
  · intro id hid
    have htaken := htally.removed id (List.mem_toFinset.mp hid)
    have ⟨v, cause, hmem, _⟩ := htaken
    exact ⟨⟨cause, mem_deferred_of_mem_restMoments hmem⟩, htaken⟩
  · intro id hid
    have hsound : w.tick.2.Sound := hw.tick hlt
    obtain ⟨map, hmap⟩ := Option.isSome_iff_exists.mp (mem_residents.mp hid)
    obtain ⟨g, e, hg, he⟩ := hsound.located.mp hmap
    refine ⟨map, ⟨e, g, hg, he⟩, ?_⟩
    rintro map' ⟨e', hfinds⟩
    exact (hsound.finds_unique hfinds ⟨g, hg, he⟩).1
  · have hmaps := maps_restOfTick (s := ({ tick := w.ticks + 1 }, { w with ticks := w.ticks + 1 }))
      fun map hmap => mem_keys_iff.mp hmap
    rw [tick_eq_restOfTick, hmaps, Std.ExtTreeMap.length_keys, Nat.zero_add]
  · rw [hdeliveries, Nat.zero_add]

/-! ### An example -/

/-- A place with a den near it. -/
def outpost : Atlas where
  plan map :=
    if map = ⟨1⟩ then some ⟨.clear 120 120,
      [.spawn { area := ⟨1600, 1600, 32, 32⟩, sort := 7, capacity := 2, interval := 0 }]⟩
    else none
  mapName _ := none
  character _ := none

/-- Ann and Ben are there, and Ben is to be removed. -/
def eve : World :=
  [.enter "Ann", .enter "Ben", .queueRemoval (.nth 2) .despawn].foldl execute (empty {} outpost)

/-- A monster comes up, and Ben is removed. -/
theorem balance_at_eve : ∃ S R : Finset EntityId, S.card = 1 ∧ R.card = 1 ∧
    eve.tick.2.residents = (eve.residents ∪ S) \ R ∧ eve.tick.1.maps = eve.regions.size ∧
      eve.tick.1.deliveries = (eve.moments.flatMap Moment.news).length := by
  have hreaches : Reaches execute Allows (empty {} outpost) eve :=
    Reaches.foldl _ _ (by simp [Allows])
  have hcounts : (eve.lost, eve.tick.2.lost, eve.tick.2.issued, eve.tick.1.spawned,
      eve.tick.1.removed) = ([], [], 3, 1, 1) := by cbv
  simp only [Prod.mk.injEq] at hcounts
  obtain ⟨hlost, hlost', hissued, hspawned, hremoved⟩ := hcounts
  have hlt : eve.tick.2.issued < UInt32.size := by rw [hissued]; decide
  obtain ⟨⟨S, R, L, hresidents, hS, -, hR, -, -, -, hL, -⟩, -, -, hmaps, hnews, -⟩ :=
    balance_of_reaches hreaches hlt
  obtain rfl : L = [] := by rwa [hlost, hlost', List.nil_append, eq_comm] at hL
  refine ⟨S, R, hS.trans hspawned, hR.trans hremoved, ?_, hmaps, hnews⟩
  rw [hresidents, List.toFinset_nil, Finset.union_empty]

end World

end TileWorld
