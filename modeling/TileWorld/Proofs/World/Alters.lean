import Mathlib.Logic.Relation
import TileWorld.Proofs.World.Membership
import TileWorld.Proofs.World.Turn

/-!
# How a world changes

Whatever is asked of a world, what comes of it is a sequence of a few kinds of changes: a map comes
into use, an entity comes, leaves or goes elsewhere, one acts or speaks, a map has its turn
(`World.Alters`). `World.develops_execute` says this of everything that can be asked, so that it is
enough to see what each kind of change keeps.
-/

namespace TileWorld

open Relation

namespace World

/-- What may happen to a world. -/
structure Terms where
  /-- The kinds of entities that may come. -/
  comes : EntityKind → Prop := fun _ => True
  /-- The entities that may leave. -/
  leaves : Entity → Prop := fun _ => True
  /-- The entities that may go to another place. -/
  jumps : EntityId → Prop := fun _ => True
  /-- The entities that may set out for a point. -/
  walks : EntityId → Prop := fun _ => True
  /-- The entities that may attack. -/
  attacks : EntityId → Prop := fun _ => True
  /-- The maps that may have their turn. -/
  turns : MapId → Prop := fun _ => True

/-- The kinds of changes that may happen to a world. -/
inductive Alters (t : Terms) : World → World → Prop where
  /-- A map comes into use. -/
  | opens {w : World} {map : MapId} {plan : MapPlan} (hmap : w.region? map = none)
    (hplan : w.atlas.plan map = some plan) : Alters t w (w.opened map plan)
  /-- An identity is given out. -/
  | issues (w : World) : Alters t w w.allocateId.2
  /-- A new entity comes. -/
  | comes {w : World} {e : Entity} {x : PublicId} {g g' : Region} (h : w.Comes e x g g')
    (hrest : e.AtRest) (hkind : t.comes e.kind) (hissued : w.Issued e.id) :
    Alters t w (w.welcome e g')
  /-- An entity leaves. -/
  | leaves {w w' : World} {id : EntityId} {cause : RemovalCause} {e : Entity}
    (h : w.remove id cause = some (e, w')) (hleaves : t.leaves e) : Alters t w w'
  /-- An entity goes to another place. -/
  | jumps {w w₁ : World} {id : EntityId} {e : Entity} {map : MapId} {p : Point} {x : PublicId}
    {g g' : Region} (h : w.remove id .warp = some (e, w₁)) (h' : w₁.Comes (e.place map p) x g g')
    (hjumps : t.jumps id) : Alters t w (w₁.welcome (e.place map p) g')
  /-- An entity is lost on its way to another place. -/
  | falls {w w₁ : World} {id : EntityId} {e : Entity} (h : w.remove id .warp = some (e, w₁))
    (hjumps : t.jumps id) :
    Alters t w (if e.isPlayer then { w₁ with lost := w₁.lost ++ [id] } else w₁)
  /-- An entity sets out for a point. -/
  | walks {w : World} {map : MapId} {g : Region} (h : w.region? map = some g) (id : EntityId)
    (p : Point) (hwalks : t.walks id) : Alters t w (w.setRegion (g.modify id fun e => e.walkTo p))
  /-- An entity attacks. -/
  | attacks {w : World} {map : MapId} {g : Region} (h : w.region? map = some g) (id : EntityId)
    (hattacks : t.attacks id) :
    Alters t w (w.setRegion (g.modify id fun e => e.raise { attack := true }))
  /-- Something is said. -/
  | speaks {w : World} {speaker : Option PublicId} {text : String} {m : Message}
    (h : chatNotice speaker text = .ok m) (ids : List EntityId) :
    Alters t w (w.post (Delivery.toAll ids m))
  /-- A map has its turn, up to the changes that wait. -/
  | turns {w : World} {map : MapId} {g : Region} (h : w.region? map = some g)
    (report : TickReport) (hturns : t.turns map) : Alters t w (w.passRegion g report).2
  /-- The clock goes on, and what waits for the end of a pass is taken down or taken up. -/
  | notes (w : World) (deferred : List Deferred) (ticks : Nat) :
    Alters t w { w with deferred, ticks }

/-- A sequence of changes. -/
abbrev Develops (t : Terms) : World → World → Prop := ReflTransGen (Alters t)

variable {t : Terms} {w w' : World}

/-- What every kind of change keeps is kept in a sequence of changes. -/
theorem Develops.keeps {P : World → Prop} (h : Develops t w w')
    (hP : ∀ {w w'}, Alters t w w' → P w → P w') (hw : P w) : P w' := by
  induction h with
  | refl => exact hw
  | tail _ h ih => exact hP h ih

theorem develops_activate {map : MapId} {g : Region} (h : w.activate map = .ok (g, w')) :
    Develops t w w' := by
  obtain ⟨-, rfl⟩ | ⟨hmap, plan, hplan, rfl, -⟩ := activate_eq_ok_iff.mp h
  · exact .refl
  · exact .single (.opens hmap hplan)

theorem Issued.of_le {id : EntityId} (h : w.Issued id) (hle : w.issued ≤ w'.issued) :
    w'.Issued id := by
  obtain ⟨n, hpos, hn, rfl⟩ := h
  exact ⟨n, hpos, Nat.le_trans hn hle, rfl⟩

/-- To add an entity is a few changes: a map may come into use, and the entity may come. -/
theorem develops_add {e : Entity} (hrest : e.AtRest) (hkind : t.comes e.kind)
    (hissued : w.Issued e.id) : Develops t w (w.add e).2 := by
  obtain ⟨err, h⟩ | ⟨-, g, w₁, hact, ⟨err, h⟩ | ⟨x, g', hcomes, h⟩⟩ := w.add_cases e
  · rw [h]
  · rw [h]
    exact develops_activate hact
  · rw [h]
    refine (develops_activate hact).tail (.comes hcomes hrest hkind ?_)
    exact hissued.of_le (Nat.le_of_eq (frame_activate hact).issued.symm)

/-- A warp is a few changes: a map may come into use, and the entity leaves and may come. -/
theorem develops_warp (w : World) {id : EntityId} (hjumps : t.jumps id) (map : MapId) (p : Point) :
    Develops t w (w.warp id map p).2 := by
  obtain ⟨err, h⟩ | ⟨g, w₁, hact, ⟨err, h⟩ | ⟨e, w₂, hrem, ⟨err, h⟩ | ⟨x, g₂, g', hcomes, h⟩⟩⟩ :=
    w.warp_cases id map p
  · rw [h]
  · rw [h]
    exact develops_activate hact
  · rw [h]
    exact (develops_activate hact).tail (.falls hrem hjumps)
  · rw [h]
    exact (develops_activate hact).tail (.jumps hrem hcomes hjumps)

/-! ### Ticks -/

/-- A change that waits may happen. -/
def Terms.MayApply (t : Terms) : Deferred → Prop
  | .remove _ _ => ∀ e, t.leaves e
  | .warp id _ _ => t.jumps id

theorem Terms.mayApply (hleaves : ∀ e, t.leaves e) (hjumps : ∀ id, t.jumps id) (d : Deferred) :
    t.MayApply d := by
  cases d with
  | remove id cause => exact hleaves
  | warp id map p => exact hjumps id

/-- A tick brings nobody new, and lets nobody set out or attack who does not do so by itself. -/
def Terms.ofTick : Terms where
  comes _ := False
  walks _ := False
  attacks _ := False

theorem mayApply_ofTick (d : Deferred) : Terms.ofTick.MayApply d :=
  Terms.mayApply (fun _ => trivial) (fun _ => trivial) d

/-- What waits is a few changes when it is carried out. -/
theorem develops_applyOne {d : Deferred} (hd : t.MayApply d) : Develops t w (w.applyOne d).2 := by
  cases d with
  | remove id cause =>
    rw [applyOne]
    rcases h : w.remove id cause with _ | ⟨e, w'⟩
    · exact .refl
    · exact .single (.leaves h (hd e))
  | warp id map p =>
    have h := develops_warp w hd map p
    rw [applyOne]
    rcases hwarp : w.warp id map p with ⟨_ | _, w'⟩ <;> rwa [hwarp] at h

theorem develops_applyAll {ds : List Deferred} (hds : ∀ d ∈ ds, t.MayApply d) :
    Develops t w (w.applyAll ds).2 := by
  induction ds generalizing w with
  | nil => exact .refl
  | cons d ds ih =>
    have hrest := ih (w := (w.applyOne d).2) fun d' hd' => hds d' (List.mem_cons_of_mem _ hd')
    exact (develops_applyOne (hds d List.mem_cons_self)).trans hrest

/-- The end of a pass is a few changes, if what has waited may happen. -/
theorem develops_settle (hw : ∀ d ∈ w.deferred, t.MayApply d) (report : TickReport) :
    Develops t w (w.settle report).2 :=
  ReflTransGen.trans (.single (.notes w [] w.ticks)) (develops_applyAll hw)

/-- Nothing is put down for later when a change is carried out. -/
theorem deferred_applyOne (w : World) (d : Deferred) : (w.applyOne d).2.deferred = w.deferred := by
  cases d with
  | remove id cause =>
    rw [applyOne]
    rcases h : w.remove id cause with _ | ⟨e, w'⟩
    · rfl
    · exact (frame_remove h).deferred
  | warp id map p =>
    rw [← deferred_warp w id map p, applyOne]
    rcases w.warp id map p with ⟨_ | _, w'⟩ <;> rfl

theorem deferred_applyAll (w : World) (ds : List Deferred) :
    (w.applyAll ds).2.deferred = w.deferred := by
  induction ds generalizing w with
  | nil => rfl
  | cons d ds ih => exact (ih _).trans (deferred_applyOne w d)

/-- When the changes that wait have been carried out, nothing waits any more. -/
theorem deferred_settle (w : World) (report : TickReport) : (w.settle report).2.deferred = [] :=
  deferred_applyAll { w with deferred := [] } w.deferred

/-- A map may have its turn if it may and everything may happen that waits when its fixtures have
worked. -/
theorem develops_passMap {map : MapId} (hmay : ∀ g, w.region? map = some g →
      t.turns map ∧ ∀ d ∈ (w.worked g).deferred, t.MayApply d) (report : TickReport) :
    Develops t w (passMap map (report, w)).2 := by
  rw [passMap]
  rcases hg : w.region? map with _ | g
  · exact .refl
  · obtain ⟨fixtures, hpass⟩ := w.passRegion_eq g report
    obtain ⟨hturns, hdeferred⟩ := hmay g hg
    have hsettle : ∀ d ∈ (w.passRegion g report).2.deferred, t.MayApply d := by
      rw [hpass]
      exact hdeferred
    exact (ReflTransGen.single (.turns hg report hturns)).trans (develops_settle hsettle _)

/-- After the turn of a map nothing waits that did not wait before. -/
theorem mem_deferred_passMap {map : MapId} {report : TickReport} {d : Deferred}
    (h : d ∈ (passMap map (report, w)).2.deferred) : d ∈ w.deferred := by
  rw [passMap] at h
  rcases hg : w.region? map with _ | g <;> simp only [hg] at h
  · exact h
  · rw [deferred_settle] at h
    exact absurd h List.not_mem_nil

/-- The maps in use are those that have their turn. -/
theorem mem_keys_iff {map : MapId} : map ∈ w.regions.keys ↔ (w.region? map).isSome := by
  rw [Std.ExtTreeMap.mem_keys, Std.ExtTreeMap.mem_iff_isSome_getElem?]
  rfl

/-- A tick gives every map in use its turn and then carries out what still waits. What holds while
some maps are still to have their turn, and outlives one turn, holds after all of them. -/
theorem tick_eq_settle {I : List MapId → World → Prop}
    (hpass : ∀ map ms w report, I (map :: ms) w → I ms (passMap map (report, w)).2)
    (hw : I w.regions.keys { w with ticks := w.ticks + 1 }) :
    ∃ report w', I [] w' ∧ w.tick.2 = (w'.settle report).2 := by
  -- by induction on the maps that are still to have their turn
  have hfold (ms : List MapId) (s : TickReport × World) (hs : I ms s.2) :
      I [] (ms.foldl (fun s map => passMap map s) s).2 := by
    induction ms generalizing s with
    | nil => exact hs
    | cons map ms ih => exact ih _ (hpass map ms s.2 s.1 hs)
  exact ⟨_, _, hfold w.regions.keys ({ tick := w.ticks + 1 }, { w with ticks := w.ticks + 1 }) hw,
    rfl⟩

/-- After a tick nothing waits any more. -/
theorem deferred_tick (w : World) : w.tick.2.deferred = [] := by
  obtain ⟨report, w', -, heq⟩ := tick_eq_settle (w := w) (I := fun _ _ => True)
    (fun _ _ _ _ _ => trivial) trivial
  rw [heq]
  exact w'.deferred_settle report

/-- A tick is a few changes, if what waits may happen. -/
theorem develops_tick (hw : ∀ d ∈ w.deferred, t.MayApply d) (hjumps : ∀ id, t.jumps id)
    (hturns : ∀ map, t.turns map) : Develops t w w.tick.2 := by
  -- whatever the fixtures of a map put down may happen
  have hworked {v : World} (hv : ∀ d ∈ v.deferred, t.MayApply d) (g : Region) :
      ∀ d ∈ (v.worked g).deferred, t.MayApply d := by
    intro d hd
    cases d with
    | remove id cause => exact hv _ (mem_deferred_worked hd)
    | warp id map p => exact hjumps id
  obtain ⟨report, w', ⟨hdev, hmay⟩, heq⟩ := tick_eq_settle (w := w)
    (I := fun _ w' => Develops t w w' ∧ ∀ d ∈ w'.deferred, t.MayApply d)
    (fun map ms w' report h =>
      ⟨h.1.trans (develops_passMap (fun g _ => ⟨hturns map, hworked h.2 g⟩) report),
        fun d hd => h.2 d (mem_deferred_passMap hd)⟩)
    ⟨.single (.notes w w.deferred (w.ticks + 1)), hw⟩
  rw [heq]
  exact hdev.trans (develops_settle hmay report)

theorem develops_applyAll_ofTick (w : World) (ds : List Deferred) :
    Develops .ofTick w (w.applyAll ds).2 :=
  develops_applyAll fun d _ => mayApply_ofTick d

theorem develops_settle_ofTick (w : World) (report : TickReport) :
    Develops .ofTick w (w.settle report).2 :=
  develops_settle (fun d _ => mayApply_ofTick d) report

theorem develops_passMap_ofTick (w : World) (map : MapId) (report : TickReport) :
    Develops .ofTick w (passMap map (report, w)).2 :=
  develops_passMap (fun _ _ => ⟨trivial, fun d _ => mayApply_ofTick d⟩) report

theorem develops_tick_ofTick (w : World) : Develops .ofTick w w.tick.2 :=
  develops_tick (fun d _ => mayApply_ofTick d) (fun _ => trivial) fun _ => trivial

/-! ### Everything that can be asked -/

/-- Whoever is added is new and has an identity that the world has given out. It may be on a map
already, and then it is refused. -/
def Allows (w : World) : Command → Prop
  | .add e => e.IsNew ∧ w.Issued e.id
  | _ => True

/-- Whoever is brought into the world by a command is of a kind in `Q`. -/
def Brings (Q : EntityKind → Prop) (w : World) : Command → Prop
  | .add e => Q e.kind
  | .enter name => Q (.player (w.characterOf name).looks)
  | _ => True

/-- What may be asked in a run may be asked at all. -/
theorem allows_of_admits {c : Command} (h : w.Admits c) : w.Allows c := by
  cases c with
  | add e => exact ⟨h.1, h.2.1⟩
  | _ => exact trivial

end World

/-- Whoever is new is on its way to nowhere. -/
theorem Entity.IsNew.atRest {e : Entity} (h : e.IsNew) : e.AtRest := by
  cases h <;> exact ⟨rfl, rfl, rfl⟩

namespace World

variable {t : Terms} {w : World}

theorem issued_allocateId (w : World) : w.allocateId.2.Issued w.allocateId.1 :=
  ⟨w.issued + 1, Nat.succ_pos _, Nat.le_refl _, rfl⟩

/-- To enter is a few changes: an identity is given out, a map may come into use, and a player may
come. -/
theorem develops_enter {name : String} (hkind : t.comes (.player (w.characterOf name).looks)) :
    Develops t w (w.enter name).2 := by
  refine ReflTransGen.head (.issues w) ?_
  exact develops_add ⟨rfl, rfl, rfl⟩ hkind w.issued_allocateId

theorem exists_region?_of_regionOf {id : EntityId} {g : Region} (h : w.regionOf id = some g) :
    ∃ map, w.mapOf id = some map ∧ w.region? map = some g := by
  rw [regionOf] at h
  exact Option.bind_eq_some_iff.mp h

/-- When an entity sets out for a point, and what becomes of the world then. -/
theorem setDestination_eq_ok_iff {w' : World} {id : EntityId} {p : Point} :
    w.setDestination id p = .ok w' ↔ ∃ map g, w.mapOf id = some map ∧ w.region? map = some g ∧
      g.terrain.contains p = true ∧ g.contains id = true ∧
        w' = w.setRegion (g.modify id fun e => e.walkTo p) := by
  rw [setDestination, regionOf]
  rcases w.mapOf id with _ | map
  · simp
  · rcases hg : w.region? map with _ | g
    · simp [hg]
    · cases hp : g.terrain.contains p <;> cases hid : g.contains id <;>
        simp [hg, hp, hid, @eq_comm _ w']

/-- An entity attacks if it is listed on a map and is there. -/
theorem attack_eq_ok_iff {w' : World} {id : EntityId} :
    w.attack id = .ok w' ↔ ∃ map g, w.mapOf id = some map ∧ w.region? map = some g ∧
      g.contains id = true ∧ w' = w.setRegion (g.modify id fun e => e.raise { attack := true }) := by
  rw [attack, regionOf]
  rcases w.mapOf id with _ | map
  · simp
  · rcases hg : w.region? map with _ | g
    · simp [hg]
    · cases hid : g.contains id <;> simp [hg, hid, @eq_comm _ w']

/-- When an entity is heard, and by whom. -/
theorem say_eq_ok_iff {w' : World} {id : EntityId} {text : String} {n : Nat} :
    w.say id text = .ok (n, w') ↔ ∃ map g speaker m, w.mapOf id = some map ∧
      w.region? map = some g ∧ g.find? id = some speaker ∧
      chatNotice speaker.publicId text = .ok m ∧
        w.broadcast (g.playersAround speaker w.config.range) m = (n, w') := by
  rw [say, regionOf]
  rcases w.mapOf id with _ | map
  · simp
  · rcases hg : w.region? map with _ | g
    · simp [hg]
    · rcases he : g.find? id with _ | speaker
      · simp [hg, he]
      · rcases hm : chatNotice speaker.publicId text with err | m <;> simp [hg, he, hm]

/-- Whoever sets out for a point is on a map in use. -/
theorem exists_of_setDestination {w' : World} {id : EntityId} {p : Point}
    (h : w.setDestination id p = .ok w') :
    ∃ map g, w.region? map = some g ∧ w' = w.setRegion (g.modify id fun e => e.walkTo p) := by
  obtain ⟨map, g, -, hg, -, -, hw'⟩ := setDestination_eq_ok_iff.mp h
  exact ⟨map, g, hg, hw'⟩

theorem exists_of_attack {w' : World} {id : EntityId} (h : w.attack id = .ok w') :
    ∃ map g, w.region? map = some g ∧
      w' = w.setRegion (g.modify id fun e => e.raise { attack := true }) := by
  obtain ⟨map, g, -, hg, -, hw'⟩ := attack_eq_ok_iff.mp h
  exact ⟨map, g, hg, hw'⟩

/-- What is said is queued for some players. -/
theorem exists_of_say {w' : World} {id : EntityId} {text : String} {n : Nat}
    (h : w.say id text = .ok (n, w')) :
    ∃ speaker m ids, chatNotice speaker text = .ok m ∧ w' = w.post (Delivery.toAll ids m) := by
  obtain ⟨map, g, speaker, m, -, -, -, hm, hsaid⟩ := say_eq_ok_iff.mp h
  cases hsaid
  exact ⟨_, m, _, hm, rfl⟩

theorem exists_of_announce {w' : World} {map : MapId} {center : Point} {text : String} {n : Nat}
    (h : w.announce map center text = .ok (n, w')) :
    ∃ speaker m ids, chatNotice speaker text = .ok m ∧ w' = w.post (Delivery.toAll ids m) := by
  rw [announce] at h
  split at h
  · cases h
  · split at h
    · cases h
    · cases h
      exact ⟨_, _, _, ‹_›, rfl⟩

/-- Something that is done where one is, or that is said: nobody comes or goes. -/
def Command.isDeed : Command → Bool
  | .walk _ _ | .attack _ | .say _ _ | .announce _ _ _ => true
  | _ => false

/-- A deed comes to nothing, or it happens to somebody on its map, or it is queued for some players. -/
theorem execute_deed_cases (w : World) {c : Command} (hc : c.isDeed = true) :
    w.execute c = w ∨
    (∃ map g id f, w.region? map = some g ∧
      ((∃ p, f = fun e : Entity => e.walkTo p) ∨ f = fun e => e.raise { attack := true }) ∧
        w.execute c = w.setRegion (g.modify id f)) ∨
    ∃ ds, w.execute c = w.post ds := by
  cases c with
  | walk id p =>
    rw [execute]
    rcases h : w.setDestination id p with err | w'
    · exact .inl rfl
    · obtain ⟨map, g, hg, rfl⟩ := exists_of_setDestination h
      exact .inr (.inl ⟨map, g, id, _, hg, .inl ⟨p, rfl⟩, rfl⟩)
  | attack id =>
    rw [execute]
    rcases h : w.attack id with err | w'
    · exact .inl rfl
    · obtain ⟨map, g, hg, rfl⟩ := exists_of_attack h
      exact .inr (.inl ⟨map, g, id, _, hg, .inr rfl, rfl⟩)
  | say id text =>
    rw [execute]
    rcases h : w.say id text with err | ⟨n, w'⟩
    · exact .inl rfl
    · obtain ⟨speaker, m, ids, -, rfl⟩ := exists_of_say h
      exact .inr (.inr ⟨_, rfl⟩)
  | announce map center text =>
    rw [execute]
    rcases h : w.announce map center text with err | ⟨n, w'⟩
    · exact .inl rfl
    · obtain ⟨speaker, m, ids, -, rfl⟩ := exists_of_announce h
      exact .inr (.inr ⟨_, rfl⟩)
  | _ => cases hc

/-- Everything that can be asked of a world comes down to a few kinds of changes. -/
theorem develops_execute {Q : EntityKind → Prop} {c : Command} (hc : w.Allows c)
    (hQ : w.Brings Q c) : Develops { comes := Q } w (w.execute c) := by
  cases c with
  | activate map =>
    rw [execute]
    rcases h : w.activate map with err | ⟨g, w'⟩
    · exact .refl
    · exact develops_activate h
  | allocate => exact .single (.issues w)
  | add e => exact develops_add hc.1.atRest hQ hc.2
  | enter name => exact develops_enter hQ
  | remove id cause =>
    rw [execute]
    rcases h : w.remove id cause with _ | ⟨e, w'⟩
    · exact .refl
    · exact .single (.leaves h trivial)
  | queueRemoval id cause => exact .single (.notes w _ w.ticks)
  | warp id map p => exact develops_warp w trivial map p
  | walk id p =>
    rw [execute]
    rcases h : w.setDestination id p with err | w'
    · exact .refl
    · obtain ⟨map, g, hmap, rfl⟩ := exists_of_setDestination h
      exact .single (.walks hmap id p trivial)
  | attack id =>
    rw [execute]
    rcases h : w.attack id with err | w'
    · exact .refl
    · obtain ⟨map, g, hmap, rfl⟩ := exists_of_attack h
      exact .single (.attacks hmap id trivial)
  | say id text =>
    rw [execute]
    rcases h : w.say id text with err | ⟨n, w'⟩
    · exact .refl
    · obtain ⟨speaker, m, ids, hm, rfl⟩ := exists_of_say h
      exact .single (.speaks hm ids)
  | announce map center text =>
    rw [execute]
    rcases h : w.announce map center text with err | ⟨n, w'⟩
    · exact .refl
    · obtain ⟨speaker, m, ids, hm, rfl⟩ := exists_of_announce h
      exact .single (.speaks hm ids)
  | tick =>
    exact develops_tick (fun d _ => Terms.mayApply (fun _ => trivial) (fun _ => trivial) d)
      (fun _ => trivial) fun _ => trivial

/-- Whatever is asked of a world is a few changes. -/
theorem Allows.develops {c : Command} (hc : w.Allows c) : Develops {} w (w.execute c) :=
  develops_execute (Q := fun _ => True) hc (by cases c <;> trivial)

/-- A run of commands is one sequence of changes. -/
theorem develops_of_reaches {w' : World} {admits : World → Command → Prop}
    (hadmits : ∀ v c, admits v c → Develops t v (v.execute c)) (h : Reaches execute admits w w') :
    Develops t w w' := by
  induction h with
  | refl => exact .refl
  | step _ c hc ih => exact ih.trans (hadmits _ c hc)

theorem develops_of_allows {w' : World} (h : Reaches execute Allows w w') : Develops {} w w' :=
  develops_of_reaches (fun _ _ hc => hc.develops) h

end World

end TileWorld
