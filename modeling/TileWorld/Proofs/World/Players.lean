import TileWorld.Proofs.World.Soundness

/-!
# Who plays

A player that is on some map of a world plays there (`World.Plays`). Somebody plays from the moment
it comes until it is removed or is lost on its way to another place. As long as nobody comes and
nobody is taken away, the same players go on to play, but for those who are lost
(`World.Sound.plays_develops`).
-/

namespace TileWorld

open Relation

namespace Region

/-- A player is on the map. -/
def Hosts (g : Region) (id : EntityId) : Prop := ∃ e, g.find? id = some e ∧ e.isPlayer = true

variable {g g' : Region}

/-- The same players are on a map if everybody stays the same to others. -/
theorem Rewrites.hosts_iff {R : Entity → Entity → Prop} (h : Rewrites R g g')
    (hR : ∀ e e', R e e' → e.Persists e') (id : EntityId) : g'.Hosts id ↔ g.Hosts id := by
  constructor
  · rintro ⟨e', he', hplayer⟩
    obtain ⟨e, he, hRe⟩ := h.back he'
    exact ⟨e, he, by rwa [← (hR e e' hRe).isPlayer]⟩
  · rintro ⟨e, he, hplayer⟩
    obtain ⟨e', he', hRe⟩ := h.forth he
    exact ⟨e', he', by rwa [(hR e e' hRe).isPlayer]⟩

theorem hosts_clearChanges (id : EntityId) : g.clearChanges.Hosts id ↔ g.Hosts id := by
  refine (rewrites_clearChanges g).hosts_iff ?_ id
  rintro e e' rfl
  exact e.persists_clearChanges

theorem not_hosts_empty (id : MapId) (terrain : Terrain) (fixtures : List Fixture)
    (random : RandomStream) (k : EntityId) : ¬ (empty id terrain fixtures random).Hosts k := by
  rintro ⟨e, he, -⟩
  simp [empty, find?] at he

theorem hosts_mark_insert {e : Entity} {x : PublicId} (h : g.insert e = .ok (x, g'))
    (id : EntityId) :
    (g'.mark e.id).Hosts id ↔ (id = e.id ∧ e.isPlayer = true) ∨ g.Hosts id := by
  have hfresh : g.find? e.id = none := (insert_eq_ok_iff.mp h).2.1
  simp only [Hosts, find?_mark_insert h]
  by_cases hid : id = e.id
  · have hplayer : (e.arrived x).isPlayer = e.isPlayer := rfl
    simp only [hid, hfresh, if_true, Option.some.injEq, exists_eq_left', hplayer, true_and,
      reduceCtorEq, false_and, exists_false, or_false]
  · simp [hid]

theorem hosts_remove {id : EntityId} {e : Entity} (h : g.remove id = some (e, g'))
    (k : EntityId) : g'.Hosts k ↔ k ≠ id ∧ g.Hosts k := by
  simp only [Hosts, find?_remove h]
  by_cases hk : k = id <;> simp [hk]

end Region

namespace World

/-- A player is on some map. -/
def Plays (w : World) (id : EntityId) : Prop := ∃ map g, w.region? map = some g ∧ g.Hosts id

variable {t : Terms} {w w' : World}

/-! ### What one map tells -/

/-- If one map has changed, one plays on that map or on one of the others. -/
theorem plays_iff_of_update {map : MapId} {g : Region}
    (hregion : ∀ m, w'.region? m = if m = map then some g else w.region? m) (id : EntityId) :
    w'.Plays id ↔ g.Hosts id ∨ ∃ m g₀, m ≠ map ∧ w.region? m = some g₀ ∧ g₀.Hosts id := by
  constructor
  · rintro ⟨m, g₀, hm, hhosts⟩
    rw [hregion] at hm
    split at hm
    · cases hm
      exact .inl hhosts
    · rename_i hne
      exact .inr ⟨m, g₀, hne, hm, hhosts⟩
  · rintro (hhosts | ⟨m, g₀, hne, hm, hhosts⟩)
    · exact ⟨map, g, by rw [hregion, if_pos rfl], hhosts⟩
    · exact ⟨m, g₀, by rw [hregion, if_neg hne, hm], hhosts⟩

/-- A player plays on a map or on another one. -/
theorem plays_iff_of_region? {map : MapId} {g : Region} (hg : w.region? map = some g)
    (id : EntityId) :
    w.Plays id ↔ g.Hosts id ∨ ∃ m g₀, m ≠ map ∧ w.region? m = some g₀ ∧ g₀.Hosts id := by
  refine plays_iff_of_update ?_ id
  intro m
  split
  · rename_i hm
    rw [hm, hg]
  · rfl

/-- The same players play if those on the map that has changed are the same. -/
theorem plays_iff_of_hosts_iff {map : MapId} {g : Region} (hg : w.region? map = some g)
    (g' : Region) (hregion : ∀ m, w'.region? m = if m = map then some g' else w.region? m)
    (h : ∀ id, g'.Hosts id ↔ g.Hosts id) (id : EntityId) : w'.Plays id ↔ w.Plays id := by
  rw [plays_iff_of_update hregion, plays_iff_of_region? hg, h]

theorem Sound.mapOf_of_hosts (hw : w.Sound) {map : MapId} {g : Region} {id : EntityId}
    (hg : w.region? map = some g) (h : g.Hosts id) : w.mapOf id = some map := by
  obtain ⟨e, he, -⟩ := h
  exact hw.located.mpr ⟨g, e, hg, he⟩

theorem plays_of_entity? {id : EntityId} (h : (w.entity? id).map Entity.isPlayer = some true) :
    w.Plays id := by
  obtain ⟨e, he, hplayer⟩ := Option.map_eq_some_iff.mp h
  obtain ⟨g, hg, he⟩ := Option.bind_eq_some_iff.mp he
  obtain ⟨map, -, hmap⟩ := exists_region?_of_regionOf hg
  exact ⟨map, g, hmap, e, he, hplayer⟩

/-! ### Coming and leaving -/

/-- Whoever comes plays if it is a player, and everybody else plays as before. -/
theorem plays_welcome {e : Entity} {x : PublicId} {g g' : Region} (h : w.Comes e x g g')
    (id : EntityId) :
    (w.welcome e g').Plays id ↔ (id = e.id ∧ e.isPlayer = true) ∨ w.Plays id := by
  have hregion (m : MapId) :
      (w.welcome e g').region? m = if m = e.map then some (g'.mark e.id) else w.region? m :=
    Table.getElem?_insert ..
  rw [plays_iff_of_update hregion, plays_iff_of_region? h.region, Region.hosts_mark_insert h.insert,
    or_assoc]

/-- Whoever leaves does not play any more, and everybody else plays as before. -/
theorem Sound.plays_remove (hw : w.Sound) {id : EntityId} {cause : RemovalCause} {e : Entity}
    (h : w.remove id cause = some (e, w')) (k : EntityId) : w'.Plays k ↔ k ≠ id ∧ w.Plays k := by
  obtain ⟨map, g, leaving, g', hmap, hg, hleaving, hrem, rfl⟩ := remove_eq_some_iff.mp h
  rw [plays_iff_of_update (w := w) (fun m => Table.getElem?_insert ..), plays_iff_of_region? hg,
    Region.hosts_remove hrem]
  constructor
  · rintro (⟨hne, hhosts⟩ | ⟨m, g₀, hm, hg₀, hhosts⟩)
    · exact ⟨hne, .inl hhosts⟩
    · refine ⟨?_, .inr ⟨m, g₀, hm, hg₀, hhosts⟩⟩
      -- whoever leaves is on no other map
      rintro rfl
      exact hm (Option.some.inj ((hw.mapOf_of_hosts hg₀ hhosts).symm.trans hmap))
  · rintro ⟨hne, hhosts | helse⟩
    · exact .inl ⟨hne, hhosts⟩
    · exact .inr helse

/-- Whoever leaves has played if it is a player. -/
theorem Sound.plays_iff_of_remove (hw : w.Sound) {id : EntityId} {cause : RemovalCause}
    {e : Entity} (h : w.remove id cause = some (e, w')) : w.Plays id ↔ e.isPlayer = true := by
  obtain ⟨map, g, leaving, g', hmap, hg, -, hrem, -⟩ := remove_eq_some_iff.mp h
  obtain ⟨e₀, he₀, rfl, -⟩ := Region.remove_eq_some_iff.mp hrem
  constructor
  · rintro ⟨m, g₀, hg₀, hhosts⟩
    obtain rfl : m = map := Option.some.inj ((hw.mapOf_of_hosts hg₀ hhosts).symm.trans hmap)
    obtain rfl : g₀ = g := Option.some.inj (hg₀.symm.trans hg)
    obtain ⟨e₁, he₁, hplayer⟩ := hhosts
    obtain rfl : e₁ = e₀ := Option.some.inj (he₁.symm.trans he₀)
    exact hplayer
  · intro hplayer
    exact ⟨map, g, hg, e₀, he₀, hplayer⟩

/-- An entity that can be taken off its map by nobody does not play. -/
theorem Sound.not_plays_of_remove_eq_none (hw : w.Sound) {id : EntityId} {cause : RemovalCause}
    (h : w.remove id cause = none) : ¬ w.Plays id := by
  rintro ⟨map, g, hg, hhosts⟩
  have hmap := hw.mapOf_of_hosts hg hhosts
  obtain ⟨e, he, -⟩ := hhosts
  rw [remove_eq_none_iff, entity?, regionOf, hmap] at h
  simp [hg, he] at h

/-! ### The turn of a map -/

/-- No fixture brings a player or takes one away. -/
theorem hosts_worked (w : World) (g : Region) (id : EntityId) :
    (w.worked g).region.Hosts id ↔ g.Hosts id := by
  have hgrows := w.outgrows_worked g
  have hadvance : g.advance.Hosts id ↔ g.Hosts id := by
    refine (Region.rewrites_advance g).hosts_iff ?_ id
    rintro e e' ⟨r, rfl⟩
    exact e.persists_live g.terrain r
  rw [← hadvance]
  constructor
  · rintro ⟨e, he, hplayer⟩
    obtain he | ⟨-, hnot, -⟩ := hgrows.find?_cases he
    · exact ⟨e, he, hplayer⟩
    · rw [hplayer] at hnot
      cases hnot
  · rintro ⟨e, he, hplayer⟩
    exact ⟨e, hgrows.stays id e he, hplayer⟩

/-- The turn of a map takes nobody out of the game and brings no player in. -/
theorem Sound.plays_turn (hw : w.Sound) {map : MapId} {g : Region} (hg : w.region? map = some g)
    (report : TickReport) (id : EntityId) :
    (w.passRegion g report).2.Plays id ↔ w.Plays id := by
  obtain ⟨fixtures, heq⟩ := w.passRegion_eq g report
  have hid : (w.worked g).region.id = map := (w.region_id_worked g).trans (hw.region hg).1
  rw [heq]
  refine plays_iff_of_hosts_iff hg ((w.worked g).region.fitted fixtures).clearChanges
    ?_ ?_ id
  · intro m
    rw [← hid]
    exact Table.getElem?_insert ..
  · exact fun k => (Region.hosts_clearChanges k).trans (w.hosts_worked g k)

/-! ### Every change -/

/-- Nobody comes, and nobody is taken away. -/
def Terms.closed : Terms where
  comes _ := False
  leaves _ := False

theorem Sound.plays_act (hw : w.Sound) {map : MapId} {g : Region} (hg : w.region? map = some g)
    (id : EntityId) {f : Entity → Entity} (hf : ∀ e : Entity, e.Persists (f e)) (k : EntityId) :
    (w.setRegion (g.modify id f)).Plays k ↔ w.Plays k := by
  have hid := (hw.region hg).1
  refine plays_iff_of_hosts_iff hg (g.modify id f) ?_ ?_ k
  · intro m
    rw [← hid]
    exact Table.getElem?_insert ..
  · intro k
    refine (Region.rewrites_modify g id f).hosts_iff ?_ k
    rintro e e' (rfl | rfl)
    · exact .refl e'
    · exact hf e

/-- What a change does to who plays: nothing, or somebody comes, or leaves, or is lost on its way to
another place. -/
inductive PlaysOn (t : Terms) (w w' : World) : Prop where
  /-- The same players play. -/
  | same (hlost : w'.lost = w.lost) (hplays : ∀ k, w'.Plays k ↔ w.Plays k)
  /-- Somebody has come. -/
  | comes (e : Entity) (hkind : t.comes e.kind) (hlost : w'.lost = w.lost)
    (hplays : ∀ k, w'.Plays k ↔ (k = e.id ∧ e.isPlayer = true) ∨ w.Plays k)
  /-- Somebody has left. -/
  | leaves (e : Entity) (hleaves : t.leaves e) (hlost : w'.lost = w.lost)
    (hplays : ∀ k, w'.Plays k ↔ k ≠ e.id ∧ w.Plays k)
  /-- A player is lost. -/
  | falls (id : EntityId) (hid : w.Plays id) (hlost : w'.lost = w.lost ++ [id])
    (hplays : ∀ k, w'.Plays k ↔ k ≠ id ∧ w.Plays k)

/-- Nobody plays on a map that has only just come into use. -/
theorem plays_opened {map : MapId} (hmap : w.region? map = none) (plan : MapPlan) (id : EntityId) :
    (w.opened map plan).Plays id ↔ w.Plays id := by
  have hregion (m : MapId) : (w.opened map plan).region? m =
      if m = map then some (w.regionOfPlan map plan) else w.region? m := Table.getElem?_insert ..
  rw [plays_iff_of_update hregion]
  constructor
  · rintro (hhosts | ⟨m, g, -, hg, hhosts⟩)
    · exact (Region.not_hosts_empty _ _ _ _ _ hhosts).elim
    · exact ⟨m, g, hg, hhosts⟩
  · rintro ⟨m, g, hg, hhosts⟩
    refine .inr ⟨m, g, ?_, hg, hhosts⟩
    rintro rfl
    rw [hmap] at hg
    cases hg

/-- Whoever goes to another place plays on there. -/
theorem Sound.plays_jump (hw : w.Sound) {w₁ : World} {id : EntityId} {e : Entity} {map : MapId}
    {p : Point} {x : PublicId} {g g' : Region} (h : w.remove id .warp = some (e, w₁))
    (h' : w₁.Comes (e.place map p) x g g') (k : EntityId) :
    (w₁.welcome (e.place map p) g').Plays k ↔ w.Plays k := by
  have hplace : (e.place map p).id = id := (hw.issued_remove h).1
  have hplayer : (e.place map p).isPlayer = e.isPlayer := rfl
  rw [plays_welcome h', hw.plays_remove h, hplace, hplayer, ← hw.plays_iff_of_remove h]
  by_cases hk : k = id <;> simp [hk]

/-- Every kind of change, as far as it is about who plays. -/
theorem Sound.playsOn (hw : w.Sound) (h : Alters t w w') : w.PlaysOn t w' := by
  cases h with
  | opens hmap hplan => exact .same rfl (plays_opened hmap _)
  | issues => exact .same rfl fun k => Iff.rfl
  | comes h _ hkind => exact .comes _ hkind rfl (plays_welcome h)
  | @leaves _ id cause e h hleaves =>
    refine .leaves e hleaves (frame_remove h).lost fun k => ?_
    rw [hw.plays_remove h, (hw.issued_remove h).1]
  | jumps h h' => exact .same (frame_remove h).lost (hw.plays_jump h h')
  | @falls w₁ id e h =>
    have hlost : w₁.lost = w.lost := (frame_remove h).lost
    rcases hplayer : e.isPlayer
    · refine .same hlost fun k => ?_
      rw [if_neg Bool.false_ne_true, hw.plays_remove h]
      refine ⟨And.right, fun hk => ⟨?_, hk⟩⟩
      rintro rfl
      exact Bool.false_ne_true (hplayer.symm.trans ((hw.plays_iff_of_remove h).mp hk))
    · rw [if_pos rfl]
      have hplayed := (hw.plays_iff_of_remove h).mpr hplayer
      exact .falls id hplayed (congrArg (· ++ [id]) hlost) fun k => (hw.plays_remove h k :)
  | walks h id p _ => exact .same rfl (hw.plays_act h id fun e => e.persists_walkTo p)
  | attacks h id => exact .same rfl (hw.plays_act h id fun e => e.persists_raise _)
  | speaks => exact .same rfl fun k => Iff.rfl
  | @turns map g h report =>
    obtain ⟨fixtures, heq⟩ := w.passRegion_eq g report
    exact .same (by rw [heq]; rfl) (hw.plays_turn h report)
  | notes => exact .same rfl fun k => Iff.rfl

/-- If nobody comes and nobody is taken away, then the same players play after a change, but for one
that may be lost. -/
theorem Sound.plays_alters (hw : w.Sound) (hlost : ∀ id ∈ w.lost, ¬ w.Plays id)
    (h : Alters .closed w w') :
    w.lost ⊆ w'.lost ∧ ∀ id, w'.Plays id ↔ w.Plays id ∧ id ∉ w'.lost := by
  obtain ⟨heq, hplays⟩ | ⟨_, hkind, -⟩ | ⟨_, hleaves, -⟩ | ⟨id, -, heq, hplays⟩ :=
    hw.playsOn h
  · rw [heq]
    refine ⟨List.Subset.refl _, fun id => ?_⟩
    rw [hplays]
    exact ⟨fun h => ⟨h, fun hid => hlost id hid h⟩, And.left⟩
  · exact hkind.elim
  · exact hleaves.elim
  · refine ⟨by rw [heq]; exact List.subset_append_left .., fun k => ?_⟩
    rw [hplays, heq, List.mem_append, List.mem_singleton, not_or]
    exact ⟨fun ⟨hne, hk⟩ => ⟨hk, fun hmem => hlost k hmem hk, hne⟩, fun ⟨hk, _, hne⟩ => ⟨hne, hk⟩⟩

/-- If nobody comes and nobody is taken away, then the same players go on to play, but for those
who are lost. -/
theorem Sound.plays_develops (hw : w.Sound) (hlost : ∀ id ∈ w.lost, ¬ w.Plays id)
    (h : Develops .closed w w') (hlt : w'.issued < UInt32.size) :
    w.lost ⊆ w'.lost ∧ ∀ id, w'.Plays id ↔ w.Plays id ∧ id ∉ w'.lost := by
  refine hw.keeps (P := fun v => w.lost ⊆ v.lost ∧ ∀ id, v.Plays id ↔ w.Plays id ∧ id ∉ v.lost) h
    (fun hv h _ ⟨hsub, hplays⟩ => ?_) ⟨List.Subset.refl _, ?_⟩ hlt
  · obtain ⟨hsub', hplays'⟩ := hv.plays_alters (fun id hid hplay => ((hplays id).mp hplay).2 hid) h
    refine ⟨List.Subset.trans hsub hsub', ?_⟩
    intro id
    rw [hplays', hplays, and_assoc]
    exact and_congr_right fun _ => ⟨And.right, fun hid => ⟨fun hmem => hid (hsub' hmem), hid⟩⟩
  · intro id
    exact ⟨fun h => ⟨h, fun hid => hlost id hid h⟩, And.left⟩

/-- Whoever was lost had been given an identity. -/
theorem Sound.issued_of_lost (hw : w.Sound) (hlost : ∀ id ∈ w.lost, w.Issued id)
    (h : Alters t w w') : ∀ id ∈ w'.lost, w'.Issued id := by
  have hle := h.issued_le
  have hsame (heq : w'.lost = w.lost) : ∀ id ∈ w'.lost, w'.Issued id := by
    rw [heq]
    exact fun id hid => (hlost id hid).of_le hle
  cases h with
  | leaves h => exact hsame (frame_remove h).lost
  | jumps h => exact hsame (frame_remove h).lost
  | @falls w₁ id e h =>
    obtain ⟨-, hissued⟩ := hw.issued_remove h
    have hlost₁ := (frame_remove h).lost
    have hkept (k : EntityId) (hk : k ∈ w.lost) : w₁.Issued k :=
      (hlost k hk).of_le (Nat.le_of_eq (frame_remove h).issued.symm)
    split
    · intro k hk
      rcases List.mem_append.mp hk with hk | hk
      · rw [hlost₁] at hk
        exact hkept k hk
      · rwa [List.mem_singleton.mp hk]
    · rw [hlost₁]
      exact hkept
  | @turns map g h report =>
    obtain ⟨fixtures, heq⟩ := w.passRegion_eq g report
    exact hsame (by rw [heq]; rfl)
  | _ => exact hsame rfl

/-- Only entities are lost whose identities have been given out. -/
theorem Sound.issued_of_lost_develops (hw : w.Sound) (hlost : ∀ id ∈ w.lost, w.Issued id)
    (h : Develops t w w') (hlt : w'.issued < UInt32.size) : ∀ id ∈ w'.lost, w'.Issued id :=
  hw.keeps (P := fun v => ∀ id ∈ v.lost, v.Issued id) h
    (fun hv h _ hlost => hv.issued_of_lost hlost h) hlost hlt

/-! ### A world and its players -/

/-- Who enters takes the next identity, brings a map into use if need be, and comes onto it. -/
theorem enter_steps (w : World) (name : String) :
    ∃ w₁, (w₁ = w.allocateId.2 ∨
        ∃ g, w.allocateId.2.activate (w.characterOf name).map = .ok (g, w₁)) ∧
      ((∃ err, w.enter name = (.error err, w₁)) ∨
        ∃ e x g g', w₁.Comes e x g g' ∧ e.map = (w.characterOf name).map ∧ e.AtRest ∧
          e.isPlayer = true ∧ e.id = .nth (w.issued + 1) ∧
            w.enter name = (.ok (e.id, x), w₁.welcome e g')) := by
  let record := w.characterOf name
  let e : Entity := .player (.nth (w.issued + 1)) record.looks record.map record.position
  have henter : w.enter name = ((w.allocateId.2.add e).1.map fun x => (e.id, x),
      (w.allocateId.2.add e).2) := rfl
  obtain ⟨err, h⟩ | ⟨-, g, w₁, hact, hrest⟩ := w.allocateId.2.add_cases e
  · refine ⟨w.allocateId.2, .inl rfl, .inl ⟨err, ?_⟩⟩
    rw [henter, h]
    rfl
  · refine ⟨w₁, .inr ⟨g, hact⟩, ?_⟩
    obtain ⟨err, h⟩ | ⟨x, g', hcomes, h⟩ := hrest
    · refine .inl ⟨err, ?_⟩
      rw [henter, h]
      rfl
    · refine .inr ⟨e, x, g, g', hcomes, rfl, ⟨rfl, rfl, rfl⟩, rfl, rfl, ?_⟩
      rw [henter, h]
      rfl

/-- A character comes into the world under the next identity, or nothing happens but that the
identity is used up and that a map may come into use. -/
theorem enter_cases (w : World) (name : String) :
    ∃ w₁, Develops .closed w w₁ ∧ w₁.issued = w.issued + 1 ∧ w₁.lost = w.lost ∧
      w₁.deferred = w.deferred ∧
      ((∃ err, w.enter name = (.error err, w₁)) ∨
        ∃ e x g g', w₁.Comes e x g g' ∧ e.map = (w.characterOf name).map ∧ e.AtRest ∧
          e.isPlayer = true ∧ e.id = .nth (w.issued + 1) ∧
            w.enter name = (.ok (e.id, x), w₁.welcome e g')) := by
  have hissues : Develops .closed w w.allocateId.2 := .single (.issues w)
  obtain ⟨w₁, rfl | ⟨g, hact⟩, hend⟩ := w.enter_steps name
  · exact ⟨_, hissues, rfl, rfl, rfl, hend⟩
  · have hframe := frame_activate hact
    exact ⟨w₁, hissues.trans (develops_activate hact), hframe.issued, hframe.lost, hframe.deferred,
      hend⟩

/-- In a sound world those who play are the players on its maps. -/
theorem Sound.plays_iff (hw : w.Sound) {id : EntityId} :
    w.Plays id ↔ ∃ map g p, w.region? map = some g ∧ p ∈ g.players ∧ p.id = id := by
  constructor
  · rintro ⟨map, g, hg, p, hp, hplayer⟩
    have hmem := Region.mem_players_iff.mpr ⟨Region.mem_entities_of_find? hp, hplayer⟩
    exact ⟨map, g, p, hg, hmem, (hw.region hg).2.placed.id_eq hp⟩
  · rintro ⟨map, g, p, hg, hp, rfl⟩
    obtain ⟨hmem, hplayer⟩ := Region.mem_players_iff.mp hp
    exact ⟨map, g, hg, p, (hw.region hg).2.placed.find?_of_mem hmem, hplayer⟩

/-- There are no entities, and nothing waits for the end of a pass: a removal that waits would
strike whoever gets the identity. -/
structure Vacant (w : World) : Prop where
  nobody : ∀ map g, w.region? map = some g → g.entities = []
  idle : w.deferred = []

/-- In a vacant world nobody plays. -/
theorem Vacant.not_plays (hw : w.Vacant) (id : EntityId) : ¬ w.Plays id := by
  rintro ⟨map, g, hg, e, he, -⟩
  have hmem := Region.mem_entities_of_find? he
  rw [hw.nobody map g hg] at hmem
  exact List.not_mem_nil hmem

end World

end TileWorld
