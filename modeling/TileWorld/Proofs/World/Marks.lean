import TileWorld.Proofs.World.Chronicle

/-!
# What a map remembers

That somebody is new on a map, or has attacked, is remembered until the map has had its next turn.
So whoever bears such a mark has got it since the last turn of its map and has not left the map
since, and whoever has got it and has not left bears it (`World.Unfolds.bears_iff_lately`). So it is
when the players of the map look around in its turn, but that monsters which have just come up are
new as well (`World.Unfolds.marked_iff_lately`).
-/

namespace TileWorld

open Relation

/-! ### Marks -/

/-- The entity has just come onto its map, and nothing else has happened to it. -/
structure Entity.Landed (e : Entity) : Prop where
  changes : e.changes = { newOnMap := true }
  oldPosition : e.oldPosition = e.position
  destination : e.destination = e.position

theorem Entity.AtRest.landed {e : Entity} (h : e.AtRest) (x : PublicId) : (e.arrived x).Landed where
  changes := by
    show e.changes ∪ { newOnMap := true } = _
    rw [h.changes]
    rfl
  oldPosition := h.oldPosition
  destination := h.destination

/-- Something that a map remembers of an entity until its next turn. -/
inductive Mark where
  /-- The entity is new on the map. -/
  | newOnMap
  /-- The entity has attacked. -/
  | attack

namespace Mark

/-- A mark is among the changes of an entity. -/
def isIn : Mark → Changes → Bool
  | newOnMap, c => c.newOnMap
  | attack, c => c.attack

variable (mark : Mark)

@[simp] theorem isIn_empty : mark.isIn {} = false := by cases mark <;> rfl

@[simp] theorem isIn_union (a b : Changes) : mark.isIn (a ∪ b) = (mark.isIn a || mark.isIn b) := by
  cases mark <;> rfl

@[simp] theorem isIn_newOnMap : mark.isIn { newOnMap := true } = true ↔ mark = newOnMap := by
  cases mark <;> simp [isIn]

@[simp] theorem isIn_newDestination : mark.isIn { newDestination := true } = false := by
  cases mark <;> rfl

@[simp] theorem isIn_live (e : Entity) (t : Terrain) (r : RandomStream) :
    mark.isIn (e.live t r).changes = mark.isIn e.changes := by
  cases mark
  · exact Entity.newOnMap_live
  · exact Entity.attack_live

@[simp] theorem isIn_attack : mark.isIn { attack := true } = true ↔ mark = attack := by
  cases mark <;> simp [isIn]

end Mark

namespace World

variable {admits : World → Command → Prop} {u v v' w w' : World} {mark : Mark} {m map : MapId}
  {k id : EntityId} {e o : Entity} {g : Region} {past later : List Incident} {i : Incident}
  {d : Deferred}

/-- The entity is on the map and bears the mark. -/
def Bears (w : World) (mark : Mark) (m : MapId) (k : EntityId) : Prop :=
  ∃ e, w.Finds m k e ∧ mark.isIn e.changes = true

/-- Marks depend only on who is where. -/
theorem bears_congr (h : ∀ o, w'.Finds m k o ↔ w.Finds m k o) :
    w'.Bears mark m k ↔ w.Bears mark m k := by
  simp only [Bears, h]

/-! ### Incidents that matter -/

/-- The change that an incident carries out, which may have waited. -/
def Incident.change? : Incident → Option (World × Deferred)
  | .asked u (.remove id cause) => some (u, .remove id cause)
  | .asked u (.warp id map p) => some (u, .warp id map p)
  | .amid (.change v d) => some (v, d)
  | _ => none

/-- A change takes the entity off the map on which it is listed. -/
def Uproots (v : World) (m : MapId) (k : EntityId) : Deferred → Prop
  | .remove id _ => id = k ∧ v.mapOf id = some m
  | .warp id map p => id = k ∧ v.mapOf id = some m ∧ v.HasPlace map p

/-- An incident takes the entity off the map. -/
def Incident.Uproots (i : Incident) (m : MapId) (k : EntityId) : Prop :=
  ∃ v d, i.change? = some (v, d) ∧ v.Uproots m k d

/-- An incident puts the entity on the map. -/
inductive Incident.Places (m : MapId) (k : EntityId) : Incident → Prop where
  /-- The entity is added. -/
  | add {u : World} {e : Entity} {x : PublicId} (h : (u.add e).1 = .ok x) (hid : e.id = k)
    (hmap : e.map = m) : Places m k (.asked u (.add e))
  /-- A character enters. -/
  | enter {u : World} {name : String} {x : PublicId} (h : (u.enter name).1 = .ok (k, x))
    (hmap : (u.characterOf name).map = m) : Places m k (.asked u (.enter name))
  /-- The entity goes to a point of the map. -/
  | warp {i : Incident} {v : World} {p : Point} {x : PublicId}
    (hi : i.change? = some (v, .warp k m p)) (h : (v.warp k m p).1 = .ok x) : Places m k i

/-- An incident gives the entity the mark. -/
inductive Incident.Gives (m : MapId) (k : EntityId) : Mark → Incident → Prop where
  /-- Whoever is put on a map is new there. -/
  | newOnMap {i : Incident} (h : i.Places m k) : Gives m k .newOnMap i
  /-- The entity attacks. -/
  | attack {u : World} (h : u.mapOf k = some m) : Gives m k .attack (.asked u (.attack k))

theorem gives_newOnMap_iff : i.Gives m k .newOnMap ↔ i.Places m k :=
  ⟨fun h => by cases h; assumption, .newOnMap⟩

/-- An entity that is added is put on its map if it is let in. -/
theorem places_add_iff : (Incident.asked u (.add e)).Places m k ↔
    e.id = k ∧ e.map = m ∧ ∃ x, (u.add e).1 = .ok x := by
  constructor
  · rintro (⟨h, hid, hmap⟩ | _ | ⟨hi, -⟩)
    · exact ⟨hid, hmap, _, h⟩
    · cases hi
  · rintro ⟨hid, hmap, x, h⟩
    exact .add h hid hmap

/-- A character that enters is put on its map if it is let in. -/
theorem places_enter_iff {name : String} : (Incident.asked u (.enter name)).Places m k ↔
    (u.characterOf name).map = m ∧ ∃ x, (u.enter name).1 = .ok (k, x) := by
  constructor
  · rintro (_ | ⟨h, hmap⟩ | ⟨hi, -⟩)
    · exact ⟨hmap, _, h⟩
    · cases hi
  · rintro ⟨hmap, x, h⟩
    exact .enter h hmap

theorem uproots_iff_of_change (hi : i.change? = some (v, d)) : i.Uproots m k ↔ v.Uproots m k d := by
  simp [Incident.Uproots, hi]

theorem gives_iff_of_change (hi : i.change? = some (v, d)) : i.Gives m k mark ↔
    mark = .newOnMap ∧ ∃ p x, d = .warp k m p ∧ (v.warp k m p).1 = .ok x := by
  constructor
  · rintro (⟨⟨h, -, -⟩ | ⟨h, -⟩ | ⟨hi', h⟩⟩ | -)
    · cases hi
    · cases hi
    · cases hi.symm.trans hi'
      exact ⟨rfl, _, _, rfl, h⟩
    · cases hi
  · rintro ⟨rfl, p, x, rfl, h⟩
    exact .newOnMap (.warp hi h)

/-! ### What incidents do to marks -/

/-- Whoever is added is new on its map, and nobody else is concerned. -/
theorem bears_add (hrest : e.AtRest) : (w.add e).2.Bears mark m k ↔
    (mark = .newOnMap ∧ e.id = k ∧ e.map = m ∧ ∃ x, (w.add e).1 = .ok x) ∨ w.Bears mark m k := by
  obtain ⟨err, h⟩ | ⟨-, g, w₁, hact, ⟨err, h⟩ | ⟨x, g', hcomes, h⟩⟩ := w.add_cases e <;>
    simp only [h, reduceCtorEq, exists_false, and_false, false_or]
  · exact bears_congr fun o => finds_activate_iff hact
  · simp only [Bears, finds_welcome_iff hcomes, finds_activate_iff hact, or_and_right, exists_or,
      Except.ok.injEq, exists_eq', and_true]
    rw [or_comm]
    refine or_congr_left ⟨?_, ?_⟩
    · rintro ⟨o, ⟨rfl, rfl, rfl⟩, hmark⟩
      rw [(hrest.landed x).changes, mark.isIn_newOnMap] at hmark
      exact ⟨hmark, rfl, rfl⟩
    · rintro ⟨rfl, rfl, rfl⟩
      exact ⟨_, ⟨rfl, rfl, rfl⟩, Entity.newOnMap_arrived e x⟩

/-- Whoever attacks bears the mark, and nobody else is concerned. -/
theorem Orderly.bears_attack (hw : w.Orderly) (id : EntityId) :
    ((w.attack id).toOption.getD w).Bears mark m k ↔
      (mark = .attack ∧ k = id ∧ w.mapOf id = some m) ∨ w.Bears mark m k := by
  rcases h : w.attack id with err | w'
  · have hnone : w.mapOf id = none := by
      refine Option.eq_none_iff_forall_ne_some.mpr fun map hmap => ?_
      obtain ⟨g, e, hg, he⟩ := hw.here hmap
      have hin : g.contains id = true := by rw [Region.contains_eq_isSome, he]; rfl
      rw [attack_eq_ok_iff.mpr ⟨map, g, hmap, hg, hin, rfl⟩] at h
      cases h
    simp [Except.toOption, hnone]
  · obtain ⟨map, g, hmap, hg, hin, rfl⟩ := attack_eq_ok_iff.mp h
    obtain rfl : g.id = map := hw.id_eq hg
    obtain ⟨e₀, he₀⟩ : ∃ e, g.find? id = some e :=
      Option.isSome_iff_exists.mp (by rwa [← Region.contains_eq_isSome])
    simp only [Except.toOption, Option.getD_some, Bears, finds_modify_iff hg, hmap,
      Option.some.injEq]
    constructor
    · rintro ⟨o, ⟨e, he, rfl⟩, hmark⟩
      split at hmark
      · rename_i hhere
        have hmark : mark.isIn (e.changes ∪ { attack := true }) = true := hmark
        rw [Mark.isIn_union, Bool.or_eq_true, Mark.isIn_attack] at hmark
        exact hmark.elim (fun hmark => .inr ⟨e, he, hmark⟩) fun hmark =>
          .inl ⟨hmark, hhere.2, hhere.1.symm⟩
      · exact .inr ⟨e, he, hmark⟩
    · rintro (⟨rfl, rfl, rfl⟩ | ⟨e, he, hmark⟩)
      · exact ⟨_, ⟨e₀, ⟨g, hg, he₀⟩, rfl⟩, by simp [Entity.raise]⟩
      · refine ⟨_, ⟨e, he, rfl⟩, ?_⟩
        split
        · simp [Entity.raise, hmark]
        · exact hmark

/-- Whoever sets out for a point bears the marks that it bore. -/
theorem Orderly.bears_walk (hw : w.Orderly) (id : EntityId) (p : Point) :
    ((w.setDestination id p).toOption.getD w).Bears mark m k ↔ w.Bears mark m k := by
  rcases h : w.setDestination id p with err | w'
  · rfl
  · obtain ⟨map, g, hg, rfl⟩ := exists_of_setDestination h
    obtain rfl : g.id = map := hw.id_eq hg
    have hkeeps (e : Entity) : mark.isIn (e.walkTo p).changes = mark.isIn e.changes :=
      (mark.isIn_union ..).trans (by rw [Mark.isIn_newDestination, Bool.or_false])
    simp only [Except.toOption, Option.getD_some, Bears, finds_modify_iff hg]
    constructor
    · rintro ⟨o, ⟨e, he, rfl⟩, hmark⟩
      refine ⟨e, he, ?_⟩
      split at hmark
      · rwa [hkeeps] at hmark
      · exact hmark
    · rintro ⟨e, he, hmark⟩
      refine ⟨_, ⟨e, he, rfl⟩, ?_⟩
      split
      · rwa [hkeeps]
      · exact hmark

/-- Marks are lost only by whoever is removed. -/
theorem Orderly.bears_remove (hv : v.Orderly) (id : EntityId) (cause : RemovalCause) :
    (v.applyOne (.remove id cause)).2.Bears mark m k ↔
      v.Bears mark m k ∧ ¬ v.Uproots m k (.remove id cause) := by
  rw [applyOne]
  rcases h : v.remove id cause with _ | ⟨e, v'⟩
  · have hnone : v.mapOf id = none := by
      by_contra hne
      obtain ⟨e, v', hrem⟩ := hv.toHoused.exists_remove (contains_locations.mpr hne) cause
      rw [h] at hrem
      cases hrem
    simp [World.Uproots, hnone]
  · simp only [Bears, finds_remove_iff h, World.Uproots, @eq_comm _ id k]
    constructor
    · rintro ⟨o, ⟨ho, hnot⟩, hmark⟩
      exact ⟨⟨o, ho, hmark⟩, hnot⟩
    · rintro ⟨⟨o, ho, hmark⟩, hnot⟩
      exact ⟨o, ⟨ho, hnot⟩, hmark⟩

/-- After a warp the entity is new where it has come, and has lost the marks that it bore where it
was. -/
theorem Orderly.bears_warp (hv : v.Orderly) (id : EntityId) (map : MapId) (p : Point) :
    (v.warp id map p).2.Bears mark m k ↔
      (mark = .newOnMap ∧ m = map ∧ k = id ∧ ∃ x, (v.warp id map p).1 = .ok x) ∨
        (v.Bears mark m k ∧ ¬ v.Uproots m k (.warp id map p)) := by
  have harrived (e : Entity) (x : PublicId) :
      mark.isIn ((e.place map p).arrived x).changes = true ↔ mark = .newOnMap := by
    rw [((e.atRest_place map p).landed x).changes, mark.isIn_newOnMap]
  simp only [World.Uproots, @eq_comm _ id k]
  obtain ⟨hstays, ⟨err, herr⟩, hfinds⟩ |
      ⟨hlisted, hplace, ⟨⟨err, herr⟩, hfinds⟩ | ⟨e, x, hok, hfinds⟩⟩ :=
    hv.finds_warp_cases id map p
  · have hnot : ¬ (k = id ∧ v.mapOf id = some m ∧ v.HasPlace map p) := by
      rintro ⟨-, hmap, hplace⟩
      rcases hstays with hnone | hno
      · rw [hnone] at hmap
        cases hmap
      · exact hno hplace
    simp only [herr, reduceCtorEq, exists_false, and_false, false_or, hnot, not_false_iff, and_true]
    exact bears_congr (hfinds m k)
  · simp only [herr, reduceCtorEq, exists_false, and_false, false_or, hplace, and_true, Bears, hfinds]
    constructor
    · rintro ⟨o, ⟨ho, hnot⟩, hmark⟩
      exact ⟨⟨o, ho, hmark⟩, hnot⟩
    · rintro ⟨⟨o, ho, hmark⟩, hnot⟩
      exact ⟨o, ⟨ho, hnot⟩, hmark⟩
  · simp only [hok, Except.ok.injEq, exists_eq', and_true, hplace, Bears, hfinds]
    constructor
    · rintro ⟨o, ⟨ho, hnot⟩ | ⟨rfl, rfl, rfl⟩, hmark⟩
      · exact .inr ⟨⟨o, ho, hmark⟩, hnot⟩
      · exact .inl ⟨(harrived e x).mp hmark, rfl, rfl⟩
    · rintro (⟨hmark, rfl, rfl⟩ | ⟨⟨o, ho, hmark⟩, hnot⟩)
      · exact ⟨_, .inr ⟨rfl, rfl, rfl⟩, (harrived e x).mpr hmark⟩
      · exact ⟨o, .inl ⟨ho, hnot⟩, hmark⟩

/-- Whoever leaves a map bears no mark on it, and whoever goes to a map is new there. -/
theorem Orderly.bears_applyOne (hv : v.Orderly) (d : Deferred) :
    (v.applyOne d).2.Bears mark m k ↔
      (mark = .newOnMap ∧ ∃ p x, d = .warp k m p ∧ (v.warp k m p).1 = .ok x) ∨
        (v.Bears mark m k ∧ ¬ v.Uproots m k d) := by
  cases d with
  | remove id cause =>
    rw [hv.bears_remove]
    simp
  | warp id map p =>
    rw [snd_applyOne_warp, hv.bears_warp]
    refine or_congr_left (and_congr_right fun _ => ⟨?_, ?_⟩)
    · rintro ⟨rfl, rfl, x, hok⟩
      exact ⟨p, x, rfl, hok⟩
    · rintro ⟨p', x, heq, hok⟩
      cases heq
      exact ⟨rfl, rfl, x, hok⟩

/-- The turn of a map takes all marks on it away. -/
theorem bears_turn (report : TickReport) :
    (v.passRegion g report).2.Bears mark m k ↔ v.Bears mark m k ∧ m ≠ g.id := by
  simp only [Bears, finds_turn_iff rfl]
  constructor
  · rintro ⟨o, ⟨hne, ho⟩ | ⟨rfl, e, he, rfl⟩, hmark⟩
    · exact ⟨⟨o, ho, hmark⟩, hne⟩
    · simp [Entity.clearChanges] at hmark
  · rintro ⟨⟨o, ho, hmark⟩, hne⟩
    exact ⟨o, .inl ⟨hne, ho⟩, hmark⟩

/-- What is asked marks whoever it puts on a map as new, and whoever it lets attack. -/
theorem gives_asked_iff : (Incident.asked w c).Gives m k mark ↔
    (mark = .newOnMap ∧ (Incident.asked w c).Places m k) ∨
      (mark = .attack ∧ c = .attack k ∧ w.mapOf k = some m) := by
  constructor
  · rintro (h | h)
    · exact .inl ⟨rfl, h⟩
    · exact .inr ⟨rfl, rfl, h⟩
  · rintro (⟨rfl, h⟩ | ⟨rfl, rfl, h⟩)
    · exact .newOnMap h
    · exact .attack h

/-- What puts nobody on a map and lets nobody attack gives no marks. -/
theorem not_gives_asked (hnow : Incident.change? (.asked w c) = none) (hadd : ∀ e, c ≠ .add e)
    (henter : ∀ name, c ≠ .enter name) (hattack : c ≠ .attack k) :
    ¬ (Incident.asked w c).Gives m k mark := by
  rw [gives_asked_iff]
  rintro (⟨-, _ | _ | ⟨hi, -⟩⟩ | ⟨-, h, -⟩)
  · exact hadd _ rfl
  · exact henter _ rfl
  · rw [hnow] at hi
    cases hi
  · exact hattack h

/-- Whoever enters is new on its map. -/
theorem bears_enter {name : String} : (w.execute (.enter name)).Bears mark m k ↔
    (mark = .newOnMap ∧ (w.characterOf name).map = m ∧ ∃ x, (w.enter name).1 = .ok (k, x)) ∨
      w.Bears mark m k := by
  let newcomer : Entity := .player (.nth (w.issued + 1)) (w.characterOf name).looks
    (w.characterOf name).map (w.characterOf name).position
  have hadd : (w.allocateId.2.add newcomer).2.Bears mark m k ↔ _ := bears_add ⟨rfl, rfl, rfl⟩
  have hok : (∃ x, (w.enter name).1 = .ok (k, x)) ↔
      newcomer.id = k ∧ ∃ x, (w.allocateId.2.add newcomer).1 = .ok x := by
    rw [enter]
    simp only [allocateId, newcomer]
    rcases World.add .. with ⟨err | x, w'⟩ <;> simp [Except.map, Entity.player]
  have hmap : newcomer.map = (w.characterOf name).map := rfl
  refine hadd.trans (or_congr_left ?_)
  simp only [hok, hmap, and_left_comm]

/-- What is asked of a world, other than a tick and what can wait, takes no marks away. -/
theorem Orderly.bears_execute (hv : v.Orderly) {c : Command} (hc : v.Allows c) (hne : c ≠ .tick)
    (hnow : Incident.change? (.asked v c) = none) :
    (v.execute c).Bears mark m k ↔ (Incident.asked v c).Gives m k mark ∨ v.Bears mark m k := by
  have hidle (hadd : ∀ e, c ≠ .add e) (henter : ∀ name, c ≠ .enter name) (hattack : c ≠ .attack k)
      (hbears : (v.execute c).Bears mark m k ↔ v.Bears mark m k) :
      (v.execute c).Bears mark m k ↔ (Incident.asked v c).Gives m k mark ∨ v.Bears mark m k :=
    hbears.trans (or_iff_right (not_gives_asked hnow hadd henter hattack)).symm
  cases c with
  | add e =>
    rw [gives_asked_iff, places_add_iff, execute]
    simpa using bears_add hc.1.atRest
  | enter name =>
    rw [gives_asked_iff, places_enter_iff, bears_enter]
    simp
  | walk id p => exact hidle (by simp) (by simp) (by simp) (hv.bears_walk id p)
  | attack id =>
    have hplaces : ¬ (Incident.asked v (.attack id)).Places m k := by
      rintro (_ | _ | ⟨hi, -⟩)
      cases hi
    rw [gives_asked_iff, execute, hv.bears_attack]
    refine or_congr_left ?_
    simp only [hplaces, and_false, false_or, Command.attack.injEq]
    constructor
    · rintro ⟨hmark, rfl, hmap⟩
      exact ⟨hmark, rfl, hmap⟩
    · rintro ⟨hmark, rfl, hmap⟩
      exact ⟨hmark, rfl, hmap⟩
  | activate | allocate | queueRemoval | say | announce =>
    exact hidle (by simp) (by simp) (by simp) (bears_congr fun o => finds_execute_iff rfl)
  | remove | warp => cases hnow
  | tick => exact absurd rfl hne

/-- What can wait and is asked at once is carried out at once. -/
theorem execute_of_change {c : Command} (h : Incident.change? (.asked v c) = some (u, d)) :
    u = v ∧ v.execute c = (v.applyOne d).2 := by
  cases c with
  | remove id cause =>
    obtain ⟨rfl, rfl⟩ := Prod.mk.inj (Option.some.inj h)
    refine ⟨rfl, ?_⟩
    rw [execute, applyOne]
    rcases v.remove id cause with _ | ⟨e, v'⟩ <;> rfl
  | warp id map p =>
    obtain ⟨rfl, rfl⟩ := Prod.mk.inj (Option.some.inj h)
    exact ⟨rfl, (v.snd_applyOne_warp id map p).symm⟩
  | _ => cases h

theorem execute_remove (v : World) (id : EntityId) (cause : RemovalCause) :
    v.execute (.remove id cause) = (v.applyOne (.remove id cause)).2 :=
  (execute_of_change (d := .remove id cause) rfl).2

/-- An incident gives marks, and takes away those of whoever it takes off the map. The turn of a map
takes away all marks on it. -/
theorem Happens.bears_iff (h : Happens admits i v v') (hadmits : ∀ v c, admits v c → v.Allows c)
    (hv : v.Orderly) : v'.Bears mark m k ↔
      i.Gives m k mark ∨ (v.Bears mark m k ∧ i.turned? ≠ some m ∧ ¬ i.Uproots m k) := by
  cases h with
  | @turn _ _ g hg report =>
    have hgives : ¬ (Incident.amid (.turn v g)).Gives m k mark := by
      rintro (⟨_ | _ | ⟨hi, -⟩⟩ | _)
      cases hi
    rw [bears_turn]
    simp [hgives, Incident.turned?, Moment.turned?, Incident.Uproots, Incident.change?, eq_comm]
  | change d =>
    rw [hv.bears_applyOne, gives_iff_of_change rfl, uproots_iff_of_change rfl]
    simp [Incident.turned?, Moment.turned?]
  | @asked _ c hc hne =>
    rcases hchange : Incident.change? (.asked v c) with _ | ⟨u, d⟩
    · rw [hv.bears_execute (hadmits v c hc) hne hchange]
      simp [Incident.turned?, Incident.Uproots, hchange]
    · obtain ⟨rfl, heq⟩ := execute_of_change hchange
      rw [heq, hv.bears_applyOne, gives_iff_of_change hchange, uproots_iff_of_change hchange]
      simp [Incident.turned?]

/-! ### Since the last turn of the map -/

/-- Something of some kind has happened since the last turn of the map, and the entity has not left the
map since. -/
def Lately (P : Incident → Prop) (m : MapId) (k : EntityId) (past : List Incident) : Prop :=
  ∃ before i after, past = before ++ i :: after ∧ P i ∧
    ∀ j ∈ after, j.turned? ≠ some m ∧ ¬ j.Uproots m k

/-- It is the last incident, or it was earlier and the last one is no reason to forget it. -/
theorem lately_append_singleton {P : Incident → Prop} : Lately P m k (past ++ [i]) ↔
    P i ∨ (Lately P m k past ∧ i.turned? ≠ some m ∧ ¬ i.Uproots m k) := by
  simp only [Lately, append_singleton_eq_iff]
  constructor
  · rintro ⟨before, j, after, ⟨-, rfl, -⟩ | ⟨after, rfl, rfl⟩, hj, hafter⟩
    · exact .inl hj
    · exact .inr ⟨⟨before, j, after, rfl, hj, fun j' hj' => hafter j' (List.mem_append_left _ hj')⟩,
        hafter i (List.mem_append_right _ (List.mem_singleton_self i))⟩
  · rintro (hi | ⟨⟨before, j, after, rfl, hj, hafter⟩, hkeeps⟩)
    · exact ⟨past, i, [], .inl ⟨rfl, rfl, rfl⟩, hi, by simp⟩
    · refine ⟨before, j, after ++ [i], .inr ⟨after, rfl, rfl⟩, hj, fun j' hj' => ?_⟩
      rcases List.mem_append.mp hj' with hj' | hj'
      · exact hafter j' hj'
      · rwa [List.mem_singleton.mp hj']

/-- An orderly world stays so whatever happens. -/
theorem Unfolds.orderly (h : Unfolds admits u past w) (hadmits : ∀ v c, admits v c → v.Allows c)
    (hu : u.Orderly) : w.Orderly := by
  refine hu.develops (t := {}) (h.develops (fun v c hc => ?_) ?_ ?_ ?_)
  · exact develops_execute (hadmits v c hc) (by cases c <;> exact trivial)
  all_goals exact fun _ => trivial

/-- Whoever bears a mark has got it since the last turn of its map and has not left the map since, and
whoever has got it and has not left bears it. -/
theorem Unfolds.bears_iff_lately {config : WorldConfig} {atlas : Atlas}
    (h : Unfolds admits (empty config atlas) past w) (hadmits : ∀ v c, admits v c → v.Allows c) :
    w.Bears mark m k ↔ Lately (Incident.Gives m k mark) m k past := by
  induction h with
  | nil => simp [Bears, Finds, empty, region?, Lately]
  | notes _ deferred ticks ih => exact ih
  | step h hi ih =>
    rw [hi.bears_iff hadmits (h.orderly hadmits (orderly_empty config atlas)), ih,
      lately_append_singleton]

/-! ### When a map has its turn -/

variable (mark) in
/-- When the players of a map look around, those bear a mark who have got it since the last turn of the
map and have not left since, and monsters that have just come up are new. -/
theorem Unfolds.marked_iff_lately {config : WorldConfig} {atlas : Atlas}
    (h : Unfolds admits (empty config atlas) past v) (hadmits : ∀ v c, admits v c → v.Allows c)
    (hg : v.region? g.id = some g) :
    (∃ o, (v.arranged g).find? k = some o ∧ mark.isIn o.changes = true) ↔
      Lately (Incident.Gives g.id k mark) g.id k past ∨
        (mark = .newOnMap ∧ g.find? k = none ∧ ∃ o, (v.arranged g).find? k = some o) := by
  rw [← h.bears_iff_lately hadmits, Bears]
  simp only [finds_iff hg]
  constructor
  · rintro ⟨o, ho, hmark⟩
    obtain ⟨e, r, he, rfl⟩ | ⟨hnone, -, hchanges⟩ := find?_arranged_cases ho
    · exact .inl ⟨e, he, by rwa [mark.isIn_live] at hmark⟩
    · rw [hchanges, mark.isIn_newOnMap] at hmark
      exact .inr ⟨hmark, hnone, o, ho⟩
  · rintro (⟨e, he, hmark⟩ | ⟨rfl, hnone, o, ho⟩)
    · obtain ⟨r, hr⟩ := v.find?_arranged he
      exact ⟨_, hr, by rwa [mark.isIn_live]⟩
    · obtain ⟨e, r, he, -⟩ | ⟨-, -, hchanges⟩ := find?_arranged_cases ho
      · rw [hnone] at he
        cases he
      · exact ⟨o, ho, by rw [hchanges]; rfl⟩

/-- In the next tick of a run a map in use has its turn at one moment and at no other, and a history
leads to that moment. -/
theorem History.exists_turn {config : WorldConfig} {atlas : Atlas}
    (h : History admits (empty config atlas) past w) (hadmits : ∀ v c, admits v c → v.Allows c)
    (hm : (w.region? m).isSome) :
    ∃ before v g after, w.moments = before ++ .turn v g :: after ∧ g.id = m ∧
      (∀ i ∈ before ++ after, i.turned? ≠ some m) ∧ v.region? g.id = some g ∧
      Unfolds admits (empty config atlas) (past ++ before.map .amid) v := by
  have hw : w.Orderly := h.unfolds.orderly hadmits (orderly_empty config atlas)
  obtain ⟨before, v, g, after, hmoments, rfl, hothers⟩ := exists_turn_of_moments hw.toHoused hm
  obtain ⟨_, _, hbefore, hhappens, -⟩ := unfolds_of_moments admits hmoments
  have hunfolds := h.unfolds.trans hbefore
  cases hhappens with
  | turn hg =>
    have hv := hunfolds.orderly hadmits (orderly_empty config atlas)
    rw [← hv.id_eq hg] at hg
    exact ⟨before, v, g, after, hmoments, rfl, hothers, hg, hunfolds⟩

end World

end TileWorld
