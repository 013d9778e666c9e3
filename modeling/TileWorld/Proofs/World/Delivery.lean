import TileWorld.Client.Scene
import TileWorld.Proofs.Region.Soundness
import TileWorld.Visibility.Diff
import TileWorld.World.Command
import TileWorld.World.Membership

/-!
# Who is told what

Messages for one player are picked out of the queue by its identity. In a tick every player gets
its own news and nothing else (`messagesTo_synchronize`), and when a being leaves, exactly the
players in range of it are told (`messagesTo_farewells`).
-/

namespace TileWorld

namespace Delivery

/-- The messages for one recipient. -/
def messagesTo (ds : List Delivery) (id : EntityId) : List Message :=
  (ds.filter fun d => d.recipient = id).map message

@[simp] theorem messagesTo_append (ds ds' : List Delivery) (id : EntityId) :
    messagesTo (ds ++ ds') id = messagesTo ds id ++ messagesTo ds' id := by
  rw [messagesTo, List.filter_append, List.map_append]
  rfl

/-- Whoever is no recipient is told nothing. -/
theorem messagesTo_eq_nil {ds : List Delivery} {id : EntityId}
    (h : ∀ d ∈ ds, d.recipient ≠ id) : messagesTo ds id = [] := by
  rw [messagesTo, List.map_eq_nil_iff, List.filter_eq_nil_iff]
  exact fun d hd heq => h d hd (of_decide_eq_true heq)

/-- Messages of somebody's own for each of several entities. -/
def toEach (l : List Entity) (f : Entity → List Message) : List Delivery :=
  l.flatMap fun e => (f e).map fun m => ⟨e.id, m⟩

theorem exists_of_mem_toEach {l : List Entity} {f : Entity → List Message} {d : Delivery}
    (h : d ∈ toEach l f) : ∃ e ∈ l, d.recipient = e.id := by
  obtain ⟨e, he, hd⟩ := List.mem_flatMap.mp h
  obtain ⟨m, -, rfl⟩ := List.mem_map.mp hd
  exact ⟨e, he, rfl⟩

theorem messagesTo_toEach_of_forall_ne {l : List Entity} {f : Entity → List Message}
    {id : EntityId} (h : ∀ e ∈ l, e.id ≠ id) : messagesTo (toEach l f) id = [] := by
  refine messagesTo_eq_nil ?_
  intro d hd
  obtain ⟨e, he, heq⟩ := exists_of_mem_toEach hd
  rw [heq]
  exact h e he

/-- Whoever gets anything is in the list. -/
theorem messagesTo_toEach_cases (l : List Entity) (f : Entity → List Message) (id : EntityId) :
    messagesTo (toEach l f) id = [] ∨ ∃ e ∈ l, e.id = id := by
  by_cases h : ∃ e ∈ l, e.id = id
  · exact .inr h
  · exact .inl (messagesTo_toEach_of_forall_ne fun e he heq => h ⟨e, he, heq⟩)

/-- Everybody in the list gets its own messages. -/
theorem messagesTo_toEach {l : List Entity} {f : Entity → List Message}
    (hl : l.Pairwise fun e e' => e.id ≠ e'.id) {e : Entity} (he : e ∈ l) :
    messagesTo (toEach l f) e.id = f e := by
  induction l with
  | nil => exact absurd he List.not_mem_nil
  | cons a l ih =>
    obtain ⟨ha, hl⟩ := List.pairwise_cons.mp hl
    -- the messages at the head are for nobody else
    have hhead : messagesTo ((f a).map fun m => ⟨a.id, m⟩) e.id =
        if a.id = e.id then f a else [] := by
      by_cases h : a.id = e.id <;> simp [messagesTo, List.filter_map, Function.comp_def, h]
    show messagesTo (((f a).map fun m => ⟨a.id, m⟩) ++ toEach l f) e.id = f e
    rw [messagesTo_append, hhead]
    rcases List.mem_cons.mp he with rfl | he
    · rw [if_pos rfl, messagesTo_toEach_of_forall_ne fun b hb h => ha b hb h.symm, List.append_nil]
    · rw [if_neg (ha e he), ih hl he, List.nil_append]

/-- The same message for everybody. -/
theorem toAll_map_id (l : List Entity) (m : Message) :
    toAll (l.map Entity.id) m = toEach l fun _ => [m] := by
  simp only [toAll, toEach, List.map_map, List.map_cons, List.map_nil]
  rw [← List.map_eq_flatMap]
  rfl

end Delivery

open Delivery

namespace Region

variable {g : Region}

/-- In the news of a tick each player is told what its view makes of the map, or nothing if that
cannot be written. -/
theorem synchronize_eq (g : Region) (range : UInt16) :
    g.synchronize range =
      toEach g.players fun viewer => (g.diff viewer range).toOption.getD [] := by
  rw [synchronize, toEach]
  congr 1
  funext viewer
  rcases g.diff viewer range with err | ms <;> rfl

/-- Only players of the map are told what they see. -/
theorem exists_of_mem_synchronize {range : UInt16} {d : Delivery} (h : d ∈ g.synchronize range) :
    ∃ k p, g.find? k = some p ∧ d.recipient = p.id := by
  rw [synchronize_eq] at h
  obtain ⟨p, hp, heq⟩ := exists_of_mem_toEach h
  obtain ⟨k, hk⟩ := mem_entities_iff.mp (mem_players_iff.mp hp).1
  exact ⟨k, p, hk, heq⟩

/-- In a tick somebody is told nothing, or is a player of the map. -/
theorem messagesTo_synchronize_cases (hg : g.Placed) (range : UInt16) (k : EntityId) :
    messagesTo (g.synchronize range) k = [] ∨ ∃ p, g.find? k = some p ∧ p.isPlayer = true := by
  rw [synchronize_eq]
  refine (messagesTo_toEach_cases ..).imp_right ?_
  rintro ⟨p, hp, rfl⟩
  obtain ⟨hmem, hplayer⟩ := mem_players_iff.mp hp
  exact ⟨p, hg.find?_of_mem hmem, hplayer⟩

/-- In a tick every player gets its own news, or nothing if they cannot be written. -/
theorem messagesTo_synchronize_eq (hg : g.Placed) {range : UInt16} {k : EntityId} {p : Entity}
    (hk : g.find? k = some p) (hplayer : p.isPlayer = true) :
    messagesTo (g.synchronize range) p.id = (g.diff p range).toOption.getD [] := by
  have hp : p ∈ g.players := mem_players_iff.mpr ⟨mem_entities_of_find? hk, hplayer⟩
  rw [synchronize_eq, messagesTo_toEach hg.pairwise_players hp]

/-- A player is told just its own news. -/
theorem messagesTo_synchronize (hg : g.Placed) {range : UInt16} {k : EntityId} {p : Entity}
    (hk : g.find? k = some p) (hplayer : p.isPlayer = true) {ms : List Message}
    (hms : g.diff p range = .ok ms) : messagesTo (g.synchronize range) p.id = ms := by
  rw [messagesTo_synchronize_eq hg hk hplayer, hms]
  rfl

end Region

namespace World

variable {w : World} {g : Region} {e : Entity}

/-- The farewell of a being goes to the players around it but itself. -/
theorem farewells_eq (w : World) (g : Region) {x : PublicId} (hbeing : e.isBeing = true)
    (hx : e.publicId = some x) :
    w.farewells g e =
      toEach ((g.playersAround e w.config.range).filter fun p => p.id ≠ e.id)
        fun _ => [leaveNotice x] := by
  rw [farewells, hbeing, hx, ← toAll_map_id]

/-- Only players of the map take leave. -/
theorem exists_of_mem_farewells {d : Delivery} (h : d ∈ w.farewells g e) :
    ∃ k p, g.find? k = some p ∧ d.recipient = p.id := by
  rcases hbeing : e.isBeing
  · simp [farewells, hbeing] at h
  · rcases hx : e.publicId with _ | x
    · simp [farewells, hbeing, hx] at h
    · rw [farewells_eq w g hbeing hx] at h
      obtain ⟨p, hp, heq⟩ := exists_of_mem_toEach h
      have hmem := (List.mem_filter.mp (List.mem_filter.mp hp).1).1
      obtain ⟨k, hk⟩ := Region.mem_entities_iff.mp (Region.mem_entities_of_mem_candidates hmem)
      exact ⟨k, p, hk, heq⟩

/-- When a being leaves, a player other than itself is told if it is in range, and is not told if it
is not. -/
theorem messagesTo_farewells (hg : g.Sound) {id k : EntityId} {p : Entity}
    (he : g.find? id = some e) (hk : g.find? k = some p) (hplayer : p.isPlayer = true)
    (hne : k ≠ id) :
    (∃ x, e.publicId = some x ∧ messagesTo (w.farewells g e) p.id = [leaveNotice x]) ∨
      (messagesTo (w.farewells g e) p.id = [] ∧
        (e.isBeing = true → e.position.inRange p.position w.config.range = false)) := by
  obtain ⟨x, hx, -⟩ := hg.numbered.taken he
  rcases hbeing : e.isBeing
  · exact .inr ⟨by simp [farewells, hbeing, messagesTo], fun h => absurd h (by decide)⟩
  · have hid : p.id ≠ e.id := by rwa [hg.placed.id_eq he, hg.placed.id_eq hk]
    rw [farewells_eq w g hbeing hx]
    rcases hrange : e.position.inRange p.position w.config.range
    · -- whoever is told is in range, so it is another one
      refine .inr ⟨messagesTo_toEach_of_forall_ne ?_, fun _ => rfl⟩
      intro q hq heq
      obtain ⟨hplayers, hnear⟩ :=
        (hg.indexed.mem_playersAround_iff hg.placed).mp (List.mem_filter.mp hq).1
      have hqk := hg.placed.find?_of_mem (Region.mem_players_iff.mp hplayers).1
      rw [heq, hg.placed.id_eq hk, hk] at hqk
      rw [← Option.some.inj hqk, Point.inRange_comm, hrange] at hnear
      exact absurd hnear (by decide)
    · refine .inl ⟨x, hx, ?_⟩
      have hmem : p ∈ g.playersAround e w.config.range :=
        (hg.indexed.mem_playersAround_iff hg.placed).mpr
          ⟨Region.mem_players_iff.mpr ⟨Region.mem_entities_of_find? hk, hplayer⟩, by
            rwa [Point.inRange_comm]⟩
      have hdistinct : (g.playersAround e w.config.range).Pairwise fun q q' => q.id ≠ q'.id :=
        ((hg.placed.pairwise_candidates ..).filter _).imp fun {q q'} hlt heq => by
          rw [heq] at hlt
          exact absurd hlt (by simp)
      exact messagesTo_toEach (hdistinct.filter _) (List.mem_filter.mpr ⟨hmem, decide_eq_true hid⟩)

/-- When a being leaves, somebody is told nothing, or is another player of the map in range of the being
and is told of it once. -/
theorem messagesTo_farewells_cases (hg : g.Sound) {id : EntityId} (he : g.find? id = some e)
    (k : EntityId) : messagesTo (w.farewells g e) k = [] ∨
      ∃ p x, k ≠ id ∧ g.find? k = some p ∧ p.isPlayer = true ∧ e.isBeing = true ∧
        e.publicId = some x ∧ e.position.inRange p.position w.config.range = true ∧
          messagesTo (w.farewells g e) k = [leaveNotice x] := by
  obtain ⟨x, hx, -⟩ := hg.numbered.taken he
  rcases hbeing : e.isBeing
  · exact .inl (by simp [farewells, hbeing, messagesTo])
  · obtain hnil | ⟨p, hp, rfl⟩ := messagesTo_toEach_cases
      ((g.playersAround e w.config.range).filter fun p => p.id ≠ e.id) (fun _ => [leaveNotice x]) k
    · exact .inl (by rw [farewells_eq w g hbeing hx, hnil])
    · obtain ⟨hp, hne⟩ := List.mem_filter.mp hp
      obtain ⟨hplayers, hnear⟩ := (hg.indexed.mem_playersAround_iff hg.placed).mp hp
      obtain ⟨hmem, hplayer⟩ := Region.mem_players_iff.mp hplayers
      have hk := hg.placed.find?_of_mem hmem
      have hother : p.id ≠ id := by rw [← hg.placed.id_eq he]; exact of_decide_eq_true hne
      obtain ⟨y, hy, hmessages⟩ | ⟨hnil, -⟩ :=
        messagesTo_farewells (w := w) hg he hk hplayer hother
      · refine .inr ⟨p, x, hother, hk, hplayer, rfl, hx, by rwa [Point.inRange_comm], ?_⟩
        rw [hmessages, Option.some.inj (hy.symm.trans hx)]
      · exact .inl hnil

theorem messagesFor_append {w' : World} {ds : List Delivery} (h : w'.outbox = w.outbox ++ ds)
    (id : EntityId) : w'.messagesFor id = w.messagesFor id ++ messagesTo ds id := by
  show messagesTo w'.outbox id = messagesTo w.outbox id ++ _
  rw [h, messagesTo_append]

/-- What a player has in view if it has got the messages that wait for it. -/
def scene (w : World) (id : EntityId) : Scene := .ofMessages (w.messagesFor id)

/-- More messages lead from one view to the next. -/
theorem scene_append {w' : World} {ds : List Delivery} (h : w'.outbox = w.outbox ++ ds)
    (id : EntityId) : w'.scene id = (messagesTo ds id).foldl Scene.receive (w.scene id) := by
  rw [scene, messagesFor_append h, Scene.ofMessages, List.foldl_append]
  rfl

end World

end TileWorld
