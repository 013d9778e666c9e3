import TileWorld.Proofs.Local
import TileWorld.Proofs.Region.Rewriting
import TileWorld.Region.Query

/-!
# The index of a region

The index is there to find whoever is near without looking at everybody. It is right when
everybody is filed under the zones of its two positions and nobody else is filed
(`Region.Indexed`). Coming, leaving and the passes of a tick keep it right, and filing everybody
anew makes it right whatever happened to the positions (`Region.indexed_refile`). As long as it is
right, and everybody is on the map, nobody near is overlooked: each question about nearness has the
answer that looking at everybody would give (`Indexed.filter_candidates`).
-/

namespace TileWorld

namespace ZoneIndex

/-! ### Zones and boxes -/

theorem lastCol_erase (x : ZoneIndex) (id : EntityId) : (x.erase id).lastCol = x.lastCol := by
  rw [erase]
  split <;> rfl

theorem lastRow_erase (x : ZoneIndex) (id : EntityId) : (x.erase id).lastRow = x.lastRow := by
  rw [erase]
  split <;> rfl

theorem lastCol_file (x : ZoneIndex) (id : EntityId) (a b : Zone) :
    (x.file id a b).lastCol = x.lastCol := by
  rw [file]
  split
  · rfl
  · exact lastCol_erase x id

theorem lastRow_file (x : ZoneIndex) (id : EntityId) (a b : Zone) :
    (x.file id a b).lastRow = x.lastRow := by
  rw [file]
  split
  · rfl
  · exact lastRow_erase x id

/-- Two indices for the same grid have the same zones. -/
theorem zoneOf_congr {x y : ZoneIndex} (hcol : x.lastCol = y.lastCol) (hrow : x.lastRow = y.lastRow)
    (p : Point) : x.zoneOf p = y.zoneOf p := by
  rw [zoneOf, zoneOf, hcol, hrow]

/-- A point of a map lies in a zone that the map has. -/
theorem div_zoneSize_le {t : Terrain} {p : Point} (h : t.contains p = true) :
    p.x.toNat / zoneSize ≤ (ofTerrain t).lastCol ∧
      p.y.toNat / zoneSize ≤ (ofTerrain t).lastRow := by
  simp only [Terrain.contains, Bool.and_eq_true, decide_eq_true_eq] at h
  simp only [ofTerrain, zoneSize]
  omega

/-- On one axis, the zone of a coordinate touches the interval around two others if the coordinate
is in range of either. -/
theorem between_boxAround {q a b range : UInt16} {last : Nat} (hlast : q.toNat / zoneSize ≤ last)
    (hnear : axisDistance q a ≤ range.toNat ∨ axisDistance q b ≤ range.toNat) :
    (min a.toNat b.toNat - range.toNat) / zoneSize ≤ min (q.toNat / zoneSize) last ∧
      min (q.toNat / zoneSize) last ≤
        min ((coordinate (max a.toNat b.toNat + range.toNat)).toNat / zoneSize) last := by
  have hq := q.toNat_lt
  have hbounds : min a.toNat b.toNat - range.toNat ≤ q.toNat ∧
      q.toNat ≤ min (max a.toNat b.toNat + range.toNat) 65535 := by
    simp only [axisDistance] at hnear
    omega
  rw [toNat_coordinate, Nat.min_eq_left hlast]
  have hlow := Nat.div_le_div_right (c := zoneSize) hbounds.1
  have hhigh := Nat.div_le_div_right (c := zoneSize) hbounds.2
  exact ⟨hlow, Nat.le_min.mpr ⟨hhigh, hlast⟩⟩

/-- The zone of a point touches the box around two others if the point is in range of either. -/
theorem contains_boxAround {x : ZoneIndex} {q a b : Point} {range : UInt16}
    (hcol : q.x.toNat / zoneSize ≤ x.lastCol) (hrow : q.y.toNat / zoneSize ≤ x.lastRow)
    (hnear : q.inRange a range = true ∨ q.inRange b range = true) :
    (x.boxAround a b range).contains (x.zoneOf q) = true := by
  rw [Point.inRange_iff, Point.inRange_iff] at hnear
  obtain ⟨hleft, hright⟩ := between_boxAround hcol (hnear.imp And.left And.left)
  obtain ⟨htop, hbottom⟩ := between_boxAround hrow (hnear.imp And.right And.right)
  simp only [ZoneBox.contains, Bool.and_eq_true, decide_eq_true_eq]
  exact ⟨⟨⟨hleft, hright⟩, htop⟩, hbottom⟩

end ZoneIndex

namespace Region

open ZoneIndex

/-! ### Keeping the index right -/

/-- Everybody is filed under the zones of its two positions, and nobody else is filed. -/
structure Indexed (g : Region) : Prop where
  coherent : g.index.Coherent
  lastCol : g.index.lastCol = (ofTerrain g.terrain).lastCol
  lastRow : g.index.lastRow = (ofTerrain g.terrain).lastRow
  filed : ∀ k, g.index.filed[k]? =
    (g.find? k).map fun e => (g.index.zoneOf e.oldPosition, g.index.zoneOf e.position)

variable {g g' : Region}

theorem indexed_empty (id : MapId) (terrain : Terrain) (fixtures : List Fixture)
    (random : RandomStream) : (empty id terrain fixtures random).Indexed where
  coherent := coherent_ofTerrain terrain
  lastCol := rfl
  lastRow := rfl
  filed k := by simp [empty, ofTerrain, find?]

/-- Whoever comes at a standstill is filed. -/
theorem Indexed.insert {e : Entity} {x : PublicId} (hg : g.Indexed)
    (h : g.insert e = .ok (x, g')) (hrest : e.oldPosition = e.position) : g'.Indexed := by
  have hfind := find?_insert h
  obtain ⟨-, -, -, publicIds, -, rfl⟩ := insert_eq_ok_iff.mp h
  refine ⟨hg.coherent.file _ _ _, (lastCol_file ..).trans hg.lastCol,
    (lastRow_file ..).trans hg.lastRow, ?_⟩
  intro k
  have hzone := zoneOf_congr
    (lastCol_file g.index e.id (g.index.zoneOf e.position) (g.index.zoneOf e.position))
    (lastRow_file g.index e.id (g.index.zoneOf e.position) (g.index.zoneOf e.position))
  rw [filed_file, hfind, hg.filed]
  split
  · simp only [Option.map_some, hzone, hrest]
  · simp only [hzone]

/-- Whoever leaves is not filed any more. -/
theorem Indexed.remove {id : EntityId} {e : Entity} (hg : g.Indexed)
    (h : g.remove id = some (e, g')) : g'.Indexed := by
  have hfind := find?_remove h
  obtain ⟨e₀, -, -, rfl⟩ := remove_eq_some_iff.mp h
  refine ⟨hg.coherent.erase id, (lastCol_erase ..).trans hg.lastCol,
    (lastRow_erase ..).trans hg.lastRow, ?_⟩
  intro k
  rw [filed_erase, hfind, hg.filed]
  split
  · rfl
  · simp only [zoneOf_congr (lastCol_erase g.index id) (lastRow_erase g.index id)]

/-- Changes that leave the positions alone leave the index right. -/
theorem Indexed.rewrite {R : Entity → Entity → Prop} (hg : g.Indexed) (h : Rewrites R g g')
    (hindex : g'.index = g.index)
    (hR : ∀ e e', R e e' → e'.position = e.position ∧ e'.oldPosition = e.oldPosition) :
    g'.Indexed := by
  refine ⟨by rw [hindex]; exact hg.coherent, by rw [hindex, h.terrain]; exact hg.lastCol,
    by rw [hindex, h.terrain]; exact hg.lastRow, ?_⟩
  intro k
  rw [hindex, hg.filed]
  rcases hk : g.find? k with _ | e
  · have hnone : g'.find? k = none := by
      rw [← Option.not_isSome_iff_eq_none, h.isSome_find?, hk]
      simp
    rw [hnone]
  · obtain ⟨e', he', hRe⟩ := h.forth hk
    obtain ⟨hpos, hold⟩ := hR e e' hRe
    rw [he', Option.map_some, Option.map_some, hpos, hold]

/-- Filing everybody anew makes the index right, wherever everybody has gone. It is enough that
nobody was filed who is not here. -/
theorem indexed_refile (hcoherent : g.index.Coherent)
    (hcol : g.index.lastCol = (ofTerrain g.terrain).lastCol)
    (hrow : g.index.lastRow = (ofTerrain g.terrain).lastRow)
    (hnone : ∀ k, g.find? k = none → g.index.filed[k]? = none) : g.refile.Indexed := by
  let P (x : ZoneIndex) : Prop :=
    x.Coherent ∧ x.lastCol = g.index.lastCol ∧ x.lastRow = g.index.lastRow
  let f (x : ZoneIndex) (p : EntityId × Entity) : ZoneIndex :=
    x.file p.1 (x.zoneOf p.2.oldPosition) (x.zoneOf p.2.position)
  have hindex : g.refile.index = g.members.toList.foldl f g.index :=
    Std.ExtTreeMap.foldl_eq_foldl_toList
  have hP : P g.refile.index := by
    rw [hindex]
    refine List.foldlRecOn _ _ ⟨hcoherent, rfl, rfl⟩ ?_
    intro x hx p _
    exact ⟨hx.1.file _ _ _, (lastCol_file ..).trans hx.2.1, (lastRow_file ..).trans hx.2.2⟩
  have hzone := zoneOf_congr hP.2.1 hP.2.2
  have hact (p : EntityId × Entity) : ActsOnKey P f (fun x k => x.filed[k]?)
      (fun p => some p.1)
      (fun p _ => some (g.index.zoneOf p.2.oldPosition, g.index.zoneOf p.2.position)) p := by
    refine fun x hx => ⟨⟨hx.1.file _ _ _, (lastCol_file ..).trans hx.2.1,
      (lastRow_file ..).trans hx.2.2⟩, ?_⟩
    intro k
    show (x.file p.1 _ _).filed[k]? = _
    rw [filed_file, zoneOf_congr hx.2.1 hx.2.2, zoneOf_congr hx.2.1 hx.2.2]
    simp only [Option.some.injEq, eq_comm]
  refine ⟨hP.1, hP.2.1.trans hcol, hP.2.2.trans hrow, ?_⟩
  intro k
  rw [find?_refile]
  simp only [hzone]
  rcases hk : g.find? k with _ | e
  · -- nobody of that identity is filed in the course of the pass
    rw [hindex]
    refine (look_foldl_of_forall_ne (fun p _ => hact p) ?_ ⟨hcoherent, rfl, rfl⟩).trans
      (hnone k hk)
    rintro ⟨k', e⟩ hmem heq
    obtain rfl : k' = k := Option.some.inj heq
    rw [Std.ExtTreeMap.mem_toList_iff_getElem?_eq_some] at hmem
    exact absurd (hk.symm.trans hmem) (by simp)
  · have hmem : (k, e) ∈ g.members.toList :=
      Std.ExtTreeMap.mem_toList_iff_getElem?_eq_some.mpr hk
    have hdistinct : g.members.toList.Pairwise fun p q => some p.1 ≠ some q.1 :=
      (ascending_toList g.members).imp fun {p q} hpq heq => by
        rw [Option.some.inj heq] at hpq
        exact absurd hpq (by simp)
    rw [hindex]
    exact look_foldl_of_mem (fun p _ => hact p) hdistinct hmem rfl ⟨hcoherent, rfl, rfl⟩

/-- After the passes everybody is filed anew. -/
theorem Indexed.advance (hg : g.Indexed) : g.advance.Indexed := by
  refine indexed_refile hg.coherent hg.lastCol hg.lastRow ?_
  intro k hk
  have hsome := (rewrites_advance g).isSome_find? k
  rw [Region.advance, find?_refile, hk] at hsome
  have hnone : g.find? k = none := Option.not_isSome_iff_eq_none.mp (by rw [← hsome]; simp)
  show g.index.filed[k]? = none
  rw [hg.filed, hnone, Option.map_none]

/-! ### Who is found -/

/-- Everybody is listed under its own identity, and both its positions are on the map. -/
structure Within (g : Region) : Prop where
  id_eq : ∀ {k e}, g.find? k = some e → e.id = k
  inside : ∀ {k e}, g.find? k = some e →
    g.terrain.contains e.position = true ∧ g.terrain.contains e.oldPosition = true

/-- The entities of a region come in ascending order of their identities. -/
theorem Within.pairwise_entities (hg : g.Within) :
    g.entities.Pairwise fun e e' => compare e.id e'.id = .lt := by
  rw [entities, List.pairwise_map]
  refine (ascending_toList g.members).imp_of_mem fun {p q} hp hq hpq => ?_
  rw [Std.ExtTreeMap.mem_toList_iff_getElem?_eq_some] at hp hq
  rwa [hg.id_eq hp, hg.id_eq hq]

/-- Whoever is looked at comes in ascending order of identities. -/
theorem Within.pairwise_candidates (hg : g.Within) (a b : Point) (range : UInt16) :
    (g.candidates a b range).Pairwise fun e e' => compare e.id e'.id = .lt := by
  rw [candidates, List.pairwise_filterMap]
  refine (pairwise_entitiesIn ..).imp fun {k k'} hkk' e he e' he' => ?_
  rwa [hg.id_eq he, hg.id_eq he']

theorem mem_entities_of_find? {k : EntityId} {e : Entity} (h : g.find? k = some e) :
    e ∈ g.entities :=
  mem_entities_iff.mpr ⟨k, h⟩

theorem mem_players_iff {e : Entity} : e ∈ g.players ↔ e ∈ g.entities ∧ e.isPlayer = true :=
  List.mem_filter

theorem mem_entities_of_mem_candidates {a b : Point} {range : UInt16} {e : Entity}
    (h : e ∈ g.candidates a b range) : e ∈ g.entities := by
  obtain ⟨k, -, hk⟩ := List.mem_filterMap.mp h
  exact mem_entities_of_find? hk

/-- Nobody is overlooked who was or is in range of one of the two points. -/
theorem Indexed.mem_candidates (hg : g.Indexed) (hwithin : g.Within) {a b : Point} {range : UInt16}
    {e : Entity} (he : e ∈ g.entities) {q : Point} (hq : q = e.oldPosition ∨ q = e.position)
    (hnear : q.inRange a range = true ∨ q.inRange b range = true) :
    e ∈ g.candidates a b range := by
  obtain ⟨k, hk⟩ := mem_entities_iff.mp he
  refine List.mem_filterMap.mpr ⟨k, mem_entitiesIn.mpr ⟨g.index.zoneOf q, ?_, ?_⟩, hk⟩
  · have hinside : g.terrain.contains q = true := by
      rcases hq with rfl | rfl
      · exact (hwithin.inside hk).2
      · exact (hwithin.inside hk).1
    have hzone := div_zoneSize_le hinside
    rw [← hg.lastCol, ← hg.lastRow] at hzone
    exact contains_boxAround hzone.1 hzone.2 hnear
  · have hfiled := hg.filed k
    rw [hk, Option.map_some] at hfiled
    refine (hg.coherent _ k).mpr ⟨_, _, hfiled, ?_⟩
    rcases hq with rfl | rfl
    · exact .inl rfl
    · exact .inr rfl

/-- To pick out entities near two points it is enough to look at the candidates: the outcome is the
same, in the same order, as if everybody were looked at. -/
theorem Indexed.filter_candidates (hg : g.Indexed) (hwithin : g.Within) {a b : Point}
    {range : UInt16} {p : Entity → Bool}
    (hp : ∀ e, p e = true → ∃ q, (q = e.oldPosition ∨ q = e.position) ∧
      (q.inRange a range = true ∨ q.inRange b range = true)) :
    (g.candidates a b range).filter p = g.entities.filter p := by
  have asymm (e e' : Entity) (h : compare e.id e'.id = .lt) (h' : compare e'.id e.id = .lt) :
      e = e' := absurd h' (Std.OrientedCmp.not_lt_of_lt h)
  have hcandidates := (hwithin.pairwise_candidates a b range).filter p
  have hentities := hwithin.pairwise_entities.filter p
  have hnodup {l : List Entity} (h : l.Pairwise fun e e' => compare e.id e'.id = .lt) : l.Nodup :=
    h.imp fun {e e'} hlt heq => by simp [heq] at hlt
  refine List.Perm.eq_of_pairwise (fun e e' _ _ => asymm e e') hcandidates hentities ?_
  refine (List.perm_ext_iff_of_nodup (hnodup hcandidates) (hnodup hentities)).mpr fun e => ?_
  rw [List.mem_filter, List.mem_filter]
  constructor
  · rintro ⟨he, hpe⟩
    exact ⟨mem_entities_of_mem_candidates he, hpe⟩
  · rintro ⟨he, hpe⟩
    obtain ⟨q, hq, hnear⟩ := hp e hpe
    exact ⟨hg.mem_candidates hwithin he hq hnear, hpe⟩

/-- The beings found around a point are all those in range of it. -/
theorem Indexed.beingsAround_eq (hg : g.Indexed) (hwithin : g.Within) (center : Point)
    (range : UInt16) :
    g.beingsAround center range =
      g.entities.filter fun e => e.isBeing && e.position.inRange center range := by
  refine hg.filter_candidates hwithin fun e he => ⟨e.position, .inr rfl, .inl ?_⟩
  exact (Bool.and_eq_true_iff.mp he).2

/-- The players found around a thing are all those in range of it. -/
theorem Indexed.playersAround_eq (hg : g.Indexed) (hwithin : g.Within) (thing : Entity)
    (range : UInt16) :
    g.playersAround thing range =
      g.entities.filter fun e => e.isPlayer && e.position.inRange thing.position range := by
  refine hg.filter_candidates hwithin fun e he => ⟨e.position, .inr rfl, .inl ?_⟩
  exact (Bool.and_eq_true_iff.mp he).2

/-- The beings found to concern a viewer are all those that concern it. -/
theorem Indexed.beingsConcerning_eq (hg : g.Indexed) (hwithin : g.Within) (viewer : Entity)
    (range : UInt16) :
    g.beingsConcerning viewer range = g.entities.filter fun e => concerns e viewer range := by
  refine hg.filter_candidates hwithin fun e he => ?_
  simp only [concerns, Bool.and_eq_true, List.any_eq_true, Bool.or_eq_true] at he
  obtain ⟨-, q, hq, hnear⟩ := he
  exact ⟨q, by simpa using hq, hnear⟩

/-- Everybody who is here has its own identity, and both its positions are on the map. -/
structure Placed (g : Region) : Prop where
  id_eq : ∀ {k e}, g.find? k = some e → e.id = k
  map_eq : ∀ {k e}, g.find? k = some e → e.map = g.id
  inside : ∀ {k e}, g.find? k = some e →
    g.terrain.contains e.position = true ∧ g.terrain.contains e.oldPosition = true

theorem Placed.within (hg : g.Placed) : g.Within := ⟨hg.id_eq, hg.inside⟩

/-- Whoever is among the entities is found under its identity. -/
theorem Placed.find?_of_mem (hg : g.Placed) {e : Entity} (he : e ∈ g.entities) :
    g.find? e.id = some e := by
  obtain ⟨k, hk⟩ := mem_entities_iff.mp he
  rwa [hg.id_eq hk]

/-- The entities are listed by ascending identities. -/
theorem Placed.pairwise_entities (hg : g.Placed) :
    g.entities.Pairwise fun e e' => compare e.id e'.id = .lt :=
  hg.within.pairwise_entities

/-- No two players on a map have the same identity. -/
theorem Placed.pairwise_players (hg : g.Placed) : g.players.Pairwise fun e e' => e.id ≠ e'.id :=
  (hg.pairwise_entities.filter _).imp fun {e e'} hlt heq => by
    rw [heq] at hlt
    exact absurd hlt (by simp)

theorem Placed.pairwise_candidates (hg : g.Placed) (a b : Point) (range : UInt16) :
    (g.candidates a b range).Pairwise fun e e' => compare e.id e'.id = .lt :=
  hg.within.pairwise_candidates a b range

/-- A search around an entity finds the players within range, and only them. -/
theorem Indexed.mem_playersAround_iff (hg : g.Indexed) (hplaced : g.Placed) {thing e : Entity}
    {range : UInt16} :
    e ∈ g.playersAround thing range ↔
      e ∈ g.players ∧ e.position.inRange thing.position range = true := by
  rw [hg.playersAround_eq hplaced.within, List.mem_filter, Bool.and_eq_true, mem_players_iff,
    and_assoc]

/-- A search for what concerns a viewer finds everybody that concerns it, and nobody else. -/
theorem Indexed.mem_beingsConcerning_iff (hg : g.Indexed) (hplaced : g.Placed) {viewer e : Entity}
    {range : UInt16} :
    e ∈ g.beingsConcerning viewer range ↔ e ∈ g.entities ∧ concerns e viewer range = true := by
  rw [hg.beingsConcerning_eq hplaced.within, List.mem_filter]

end Region

end TileWorld
