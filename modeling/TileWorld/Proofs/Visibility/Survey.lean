import TileWorld.Proofs.Client.Agreement
import TileWorld.Proofs.Region.Allotment
import TileWorld.Proofs.Region.Search
import TileWorld.Proofs.Renaming

/-!
# Looking at everybody

What a player is told in a tick is found by asking the index of its map for those who concern it. Here
is what it ought to be told, said of all the beings on the map one after the other: notices of those
that attack, come into view or go out of it, and at the end at most one notice of movement, which has
a record for each being in view that has come or moved (`Region.survey_of_indexed`).

A record is read as it stands in the message, with its flags (`MoveRecord.read`).
-/

namespace TileWorld

/-! ### Records of movement -/

/-- What stands in a notice of movement about one being. -/
structure MoveRecord where
  /-- The public id of the being. -/
  being : UInt16
  /-- What follows. -/
  flags : UInt8
  /-- The column and the row of a tile. -/
  tile : Option (UInt16 × UInt16)
  /-- A point. -/
  destination : Option (UInt16 × UInt16)
deriving DecidableEq

namespace MoveEntry

variable {m : MoveEntry}

theorem flags_le (m : MoveEntry) : m.flags ≤ 3 := by
  rw [flags]
  rcases m.tile.isSome <;> rcases m.destination.isSome <;> decide

theorem flags_and_one_iff : m.flags &&& 1 ≠ 0 ↔ m.tile.isSome = true := by
  rw [flags]
  rcases m.tile.isSome <;> rcases m.destination.isSome <;> decide

theorem flags_and_two_iff : m.flags &&& 2 ≠ 0 ↔ m.destination.isSome = true := by
  rw [flags]
  rcases m.tile.isSome <;> rcases m.destination.isSome <;> decide

theorem flags_ne_zero_iff : m.flags ≠ 0 ↔ m.tile.isSome = true ∨ m.destination.isSome = true := by
  rw [flags]
  rcases m.tile.isSome <;> rcases m.destination.isSome <;> decide

end MoveEntry

namespace MoveRecord

/-- Reads a record: a public id, the flags, and what the flags announce. -/
def read : Read MoveRecord := do
  let being ← Reader.short
  let flags ← Reader.byte
  let tile ← Read.announced (flags &&& 1 != 0) Reader.coordinates
  let destination ← Read.announced (flags &&& 2 != 0) Reader.coordinates
  return ⟨being, flags, tile, destination⟩

/-- The record of an entry. -/
def ofEntry (m : MoveEntry) : MoveRecord where
  being := m.publicId.val
  flags := m.flags
  tile := m.tile.map fun c => (c.col, c.row)
  destination := m.destination.map fun p => (p.x, p.y)

/-- An entry reads as its record. -/
theorem readsBack_ofEntry (m : MoveEntry) : Read.ReadsBack read (ofEntry m) m.bytes := by
  intro op off rest
  have h1 : (2 &&& 1 : UInt8) = 0 := by decide
  have h2 : (1 &&& 2 : UInt8) = 0 := by decide
  have h3 : ¬ (3 &&& 1 : UInt8) = 0 := by decide
  have h4 : ¬ (3 &&& 2 : UInt8) = 0 := by decide
  rcases m with ⟨⟨publicId⟩, _ | ⟨col, row⟩, _ | ⟨x, y⟩⟩ <;>
    simp [read, ofEntry, MoveEntry.bytes, MoveEntry.flags, Read.announced, carriesTile,
      carriesDestination, List.append_assoc, h1, h2, h3, h4]

/-- The entries of a notice read as their records, and nothing is left. -/
theorem toEnd_read (op : UInt16) (off : Nat) (ms : List MoveEntry) :
    Read.toEnd read ⟨op, off, ms.flatMap MoveEntry.bytes⟩ =
      (.ok (ms.map ofEntry), ⟨op, off + (ms.flatMap MoveEntry.bytes).length, []⟩) :=
  Read.ReadsBack.toEnd_map readsBack_ofEntry (fun m => by simp [MoveEntry.bytes]) op off ms

end MoveRecord

/-! ### What there is to be told about one being -/

namespace Entity

/-- The being was in the viewer's view: neither is new on the map, and the one was in range of the
other. -/
def WasInView (e viewer : Entity) (range : UInt16) : Prop :=
  viewer.changes.newOnMap = false ∧ e.changes.newOnMap = false ∧
    e.oldPosition.inRange viewer.oldPosition range = true

/-- The being is in the viewer's view. -/
def IsInView (e viewer : Entity) (range : UInt16) : Prop :=
  e.position.inRange viewer.position range = true

instance (e viewer : Entity) (range : UInt16) : Decidable (e.WasInView viewer range) :=
  inferInstanceAs (Decidable (_ ∧ _))

instance (e viewer : Entity) (range : UInt16) : Decidable (e.IsInView viewer range) :=
  inferInstanceAs (Decidable (_ = _))

/-- The notices about the being alone. -/
def noticesFor (e viewer : Entity) (range : UInt16) : List Message :=
  let x := PublicId.wire e.publicId
  (if e.changes.attack = true ∧ e.id ≠ viewer.id ∧ e.IsInView viewer range then
    [⟨Opcode.beingAttack, Field.ofShort x⟩] else []) ++
  (if ¬ e.WasInView viewer range ∧ e.IsInView viewer range then
    [⟨Opcode.beingEnter, e.kind.code :: (Field.ofShort x ++ e.kind.looksBytes)⟩] else []) ++
  if e.WasInView viewer range ∧ ¬ e.IsInView viewer range then
    [⟨Opcode.beingLeave, Field.ofShort x⟩] else []

/-- The being is in view and has come into it or moved. -/
def Stirs (e viewer : Entity) (range : UInt16) : Prop :=
  e.IsInView viewer range ∧ (¬ e.WasInView viewer range ∨ e.oldPosition ≠ e.position)

instance (e viewer : Entity) (range : UInt16) : Decidable (e.Stirs viewer range) :=
  inferInstanceAs (Decidable (_ ∧ _))

/-- The being's destination is told: it has come into view, has another destination than before, or
has arrived. -/
def TellsDestination (e viewer : Entity) (range : UInt16) : Prop :=
  ¬ e.WasInView viewer range ∨ e.changes.newDestination = true ∨ e.position = e.destination

instance (e viewer : Entity) (range : UInt16) : Decidable (e.TellsDestination viewer range) :=
  inferInstanceAs (Decidable (_ ∨ _))

/-- The entry about the being in the notice of movement. -/
def entryTo (e viewer : Entity) (range : UInt16) : MoveEntry :=
  e.moveEntry ⟨PublicId.wire e.publicId⟩ (e.wasSeenBy viewer range)

/-- All there is to be told about the being. -/
def tidings (e viewer : Entity) (range : UInt16) : News where
  notices := e.noticesFor viewer range
  move := if e.Stirs viewer range then some (e.entryTo viewer range) else none

end Entity

/-- A record says of a being what it ought to say: it is never without content, the first flag and a
tile stand for a being that still walks, and the second flag and a point for a being whose destination
is told. -/
structure MoveRecord.Describes (viewer : Entity) (range : UInt16) (e : Entity) (r : MoveRecord) :
    Prop where
  being : e.publicId = some ⟨r.being⟩
  flags_ne : r.flags ≠ 0
  flags_le : r.flags ≤ 3
  tile_iff : r.flags &&& 1 ≠ 0 ↔ e.position ≠ e.destination
  destination_iff : r.flags &&& 2 ≠ 0 ↔ e.TellsDestination viewer range
  tile : r.tile =
    if e.position ≠ e.destination then some (e.position.x / 32, e.position.y / 32) else none
  destination : r.destination =
    if e.TellsDestination viewer range then some (e.destination.x, e.destination.y) else none

namespace Entity

variable {e viewer : Entity} {range : UInt16}

theorem wasSeenBy_iff : e.wasSeenBy viewer range = true ↔ e.WasInView viewer range :=
  Outlook.sees_before_iff

theorem isSeenBy_iff : e.isSeenBy viewer range = true ↔ e.IsInView viewer range := Iff.rfl

/-- A being that still walks is given by its tile. -/
theorem tile_moveEntry (x : PublicId) (known : Bool) : (e.moveEntry x known).tile =
    if e.position ≠ e.destination then some e.position.tile else none := by
  rw [moveEntry]
  split <;> simp_all

/-- A destination is given if it is told. -/
theorem destination_entryTo : (e.entryTo viewer range).destination =
    if e.TellsDestination viewer range then some e.destination else none := by
  rw [entryTo, moveEntry]
  by_cases hrest : e.position = e.destination
  · rw [if_pos hrest, if_pos (.inr (.inr hrest))]
  · rw [if_neg hrest]
    refine if_congr ?_ rfl rfl
    rw [TellsDestination, ← wasSeenBy_iff]
    simp [hrest]

/-- The entry about a being, as it is computed, says what it ought to say. -/
theorem describes_entryTo {x : PublicId} (hx : e.publicId = some x) :
    MoveRecord.Describes viewer range e (.ofEntry (e.entryTo viewer range)) := by
  have htile : (e.entryTo viewer range).tile =
      if e.position ≠ e.destination then some e.position.tile else none := tile_moveEntry _ _
  have hdestination : (e.entryTo viewer range).destination =
      if e.TellsDestination viewer range then some e.destination else none := destination_entryTo
  refine ⟨?_, ?_, MoveEntry.flags_le _, ?_, ?_, ?_, ?_⟩
  · have hbeing : (e.entryTo viewer range).publicId = x := by
      rw [entryTo, publicId_moveEntry, hx]
      rfl
    rw [hx]
    exact congrArg some hbeing.symm
  · -- a being at rest is where it walks to
    refine MoveEntry.flags_ne_zero_iff.mpr ?_
    rw [htile, hdestination]
    by_cases hrest : e.position = e.destination
    · exact .inr (by rw [if_pos (.inr (.inr hrest))]; rfl)
    · exact .inl (by rw [if_pos hrest]; rfl)
  · refine MoveEntry.flags_and_one_iff.trans ?_
    rw [htile]
    split <;> simp_all
  · refine MoveEntry.flags_and_two_iff.trans ?_
    rw [hdestination]
    split <;> simp_all
  · rw [MoveRecord.ofEntry, htile]
    split <;> rfl
  · rw [MoveRecord.ofEntry, hdestination]
    split <;> rfl

/-- The attack notice goes out as it ought to. -/
theorem attackIsSeenBy_iff (hother : e.publicId = viewer.publicId ↔ e.id = viewer.id) :
    e.attackIsSeenBy viewer range = true ↔
      e.changes.attack = true ∧ e.id ≠ viewer.id ∧ e.IsInView viewer range := by
  rw [attackIsSeenBy, Bool.and_eq_true, Bool.and_eq_true, bne_iff_ne, ne_eq, hother, isSeenBy_iff,
    and_assoc]

/-- What is computed about one being is what ought to be told about it. -/
theorem newsFor_eq {x : PublicId} (hx : e.publicId = some x)
    (hother : e.publicId = viewer.publicId ↔ e.id = viewer.id)
    (hfits : ¬ e.WasInView viewer range → e.IsInView viewer range → e.kind.NameFits) :
    e.newsFor viewer range = .ok (e.tidings viewer range) := by
  have hattack : (if e.attackIsSeenBy viewer range = true then [attackNotice x] else []) =
      if e.changes.attack = true ∧ e.id ≠ viewer.id ∧ e.IsInView viewer range then
        [⟨Opcode.beingAttack, Field.ofShort x.val⟩] else [] :=
    if_congr (attackIsSeenBy_iff hother) rfl rfl
  have hwire : PublicId.wire e.publicId = x.val := by rw [hx]; rfl
  rw [newsFor, hx]
  simp only [hattack, tidings, noticesFor, entryTo, hwire, Stirs]
  by_cases hwas : e.WasInView viewer range <;> by_cases his : e.IsInView viewer range
  · have hw := wasSeenBy_iff.mpr hwas
    have hi := isSeenBy_iff.mpr his
    by_cases hpos : e.oldPosition = e.position <;> simp [hw, hi, hwas, his, hpos]
  · have hw := wasSeenBy_iff.mpr hwas
    have hi := Bool.eq_false_iff.mpr (mt isSeenBy_iff.mp his)
    simp [hw, hi, hwas, his, leaveNotice]
  · have hw := Bool.eq_false_iff.mpr (mt wasSeenBy_iff.mp hwas)
    have hi := isSeenBy_iff.mpr his
    have henter : e.enterNotice x =
        .ok ⟨Opcode.beingEnter, e.kind.code :: (Field.ofShort x.val ++ e.kind.looksBytes)⟩ :=
      enterNotice_eq_ok_iff.mpr ⟨hfits hwas his, rfl⟩
    simp [hw, hi, hwas, his, henter]
  · have hw := Bool.eq_false_iff.mpr (mt wasSeenBy_iff.mp hwas)
    have hi := Bool.eq_false_iff.mpr (mt isSeenBy_iff.mp his)
    simp [hw, hi, hwas, his]

/-- There is nothing to tell about a being that neither was nor is in view. -/
theorem tidings_eq_empty (hwas : ¬ e.WasInView viewer range) (his : ¬ e.IsInView viewer range) :
    e.tidings viewer range = {} := by
  simp [tidings, noticesFor, Stirs, hwas, his]

end Entity

namespace News

/-- Those about whom there is nothing to tell can be left out. -/
theorem messages_map_filter {f : Entity → News} {p : Entity → Bool} {l : List Entity}
    (h : ∀ e ∈ l, p e = false → f e = {}) :
    messages ((l.filter p).map f) = messages (l.map f) := by
  have hparts : ((l.filter p).map f).flatMap notices = (l.map f).flatMap notices ∧
      ((l.filter p).map f).filterMap move = (l.map f).filterMap move := by
    induction l with
    | nil => exact ⟨rfl, rfl⟩
    | cons e l ih =>
      obtain ⟨hnotices, hmoves⟩ := ih fun e he => h e (List.mem_cons_of_mem _ he)
      by_cases hp : p e = true
      · simp only [List.filter_cons_of_pos hp, List.map_cons, List.flatMap_cons,
          List.filterMap_cons, hnotices, hmoves, and_self]
      · have hnothing := h e List.mem_cons_self (Bool.eq_false_iff.mpr hp)
        simp [List.filter_cons_of_neg hp, hnothing, hnotices, hmoves]
  rw [messages, messages, hparts.1, hparts.2]

/-- All the tidings in the order in which they are sent. -/
theorem messages_map_tidings (viewer : Entity) (range : UInt16) (l : List Entity) :
    messages (l.map fun e => e.tidings viewer range) =
      l.flatMap (fun e => e.noticesFor viewer range) ++
        if (l.filter fun e => e.Stirs viewer range).isEmpty then [] else
          [MoveEntry.notice ((l.filter fun e => e.Stirs viewer range).map fun e =>
            e.entryTo viewer range)] := by
  have hmoves : (l.map fun e => e.tidings viewer range).filterMap move =
      (l.filter fun e => e.Stirs viewer range).map fun e => e.entryTo viewer range := by
    rw [List.filterMap_map, ← List.filterMap_eq_map', List.filterMap_filter]
    refine List.filterMap_congr fun e _ => ?_
    simp [Entity.tidings]
  rw [messages, hmoves, List.flatMap_map, List.isEmpty_map]
  rfl

end News

/-- The message is a notice of movement that, read record by record to its end, has one record for
each of some beings, in their order, which says of it what it ought to say. -/
def Message.TellsMovesOf (m : Message) (viewer : Entity) (range : UInt16) (l : List Entity) : Prop :=
  ∃ r records r', Reader.ofFrame m.bytes = .ok r ∧ r.opcode = Opcode.beingsMove ∧
    Read.toEnd MoveRecord.read r = (.ok records, r') ∧ r'.remaining = 0 ∧
    List.Forall₂ (MoveRecord.Describes viewer range) l records

/-- What is written of some beings is a notice of their movement. -/
theorem MoveEntry.tellsMovesOf_notice {viewer : Entity} {range : UInt16} {l : List Entity}
    (hl : ∀ e ∈ l, e.publicId ≠ none) :
    (notice (l.map fun e => e.entryTo viewer range)).TellsMovesOf viewer range l := by
  refine ⟨_, _, _, Reader.ofFrame_bytes _, rfl, MoveRecord.toEnd_read _ _ _, rfl, ?_⟩
  rw [List.map_map, List.forall₂_map_right_iff, List.forall₂_same]
  intro e he
  obtain ⟨x, hx⟩ := Option.ne_none_iff_exists'.mp (hl e he)
  exact Entity.describes_entryTo hx

namespace Region

variable {g : Region} {viewer : Entity} {range : UInt16}

/-- The beings on the map. -/
def beings (g : Region) : List Entity := g.entities.filter Entity.isBeing

theorem Within.mem_beings_iff (hg : g.Within) {e : Entity} :
    e ∈ g.beings ↔ g.find? e.id = some e ∧ e.isBeing = true := by
  rw [beings, List.mem_filter]
  refine and_congr_left fun _ => ⟨fun he => ?_, mem_entities_of_find?⟩
  obtain ⟨k, hk⟩ := mem_entities_iff.mp he
  rwa [hg.id_eq hk]

/-- Whoever does not concern a viewer neither was nor is in its view. -/
theorem tidings_eq_empty_of_concerns {e : Entity} (hbeing : e.isBeing = true)
    (h : concerns e viewer range = false) : e.tidings viewer range = {} := by
  have hnot : ¬ concerns e viewer range = true := Bool.eq_false_iff.mp h
  exact Entity.tidings_eq_empty
    (fun hwas => hnot (Scene.concerns_of_wasSeenBy hbeing (Entity.wasSeenBy_iff.mpr hwas)))
    fun his => hnot (Scene.concerns_of_isSeenBy hbeing (Entity.isSeenBy_iff.mpr his))

/-- What is found by asking the index for those who concern the viewer is what is found by looking
at all beings. -/
theorem Indexed.diff_eq (hindexed : g.Indexed) (hwithin : g.Within)
    (hnews : ∀ e ∈ g.beings, e.newsFor viewer range = .ok (e.tidings viewer range)) :
    g.diff viewer range = .ok (News.messages (g.beings.map fun e => e.tidings viewer range)) := by
  have hconcerned : g.beingsConcerning viewer range =
      g.beings.filter fun e => concerns e viewer range := by
    rw [hindexed.beingsConcerning_eq hwithin, beings, List.filter_filter]
    refine List.filter_congr fun e _ => ?_
    rw [concerns, Bool.and_right_comm, Bool.and_self]
  rw [diff, hconcerned, mapM_eq_ok_map fun e he => hnews e (List.mem_filter.mp he).1]
  exact congrArg Except.ok <| News.messages_map_filter fun e he hnot =>
    tidings_eq_empty_of_concerns (List.mem_filter.mp he).2 hnot

/-- On a map whose index is up to date, where everybody has a public id of its own, a viewer is told
in a tick, being by being in ascending order of their identities, of the attack of each other being
in view that attacks, of each that has come into view and of each that has gone out of it. If one
that is in view has come into it or moved, there is one more message, the last, which is read to its
end as one record for each such being in the same order. The names of those that come into view have
to fit. -/
theorem survey_of_indexed (hindexed : g.Indexed) (hwithin : g.Within)
    (hids : ∀ k e, g.find? k = some e → e.publicId ≠ none)
    (hdistinct : ∀ k k' e e', g.find? k = some e → g.find? k' = some e' →
      e.publicId = e'.publicId → k = k')
    (hviewer : g.find? viewer.id = some viewer)
    (hnames : ∀ k e, g.find? k = some e → e.isBeing = true → ¬ e.WasInView viewer range →
      e.IsInView viewer range → e.kind.NameFits) :
    ∃ beings : List Entity, beings.Pairwise (fun e e' => e.id.val < e'.id.val) ∧
      (∀ e, e ∈ beings ↔ g.find? e.id = some e ∧ e.isBeing = true) ∧
      ∃ last, g.diff viewer range =
          .ok (beings.flatMap (fun e => e.noticesFor viewer range) ++ last) ∧
        ((∀ e ∈ beings, ¬ e.Stirs viewer range) → last = []) ∧
        ((∃ e ∈ beings, e.Stirs viewer range) → ∃ m : Message, last = [m] ∧
          m.TellsMovesOf viewer range (beings.filter fun e => e.Stirs viewer range)) := by
  have hmem {e : Entity} (he : e ∈ g.beings) : g.find? e.id = some e ∧ e.isBeing = true :=
    hwithin.mem_beings_iff.mp he
  have hnews : ∀ e ∈ g.beings, e.newsFor viewer range = .ok (e.tidings viewer range) := by
    intro e he
    obtain ⟨hfind, hbeing⟩ := hmem he
    obtain ⟨x, hx⟩ := Option.ne_none_iff_exists'.mp (hids _ _ hfind)
    refine Entity.newsFor_eq hx ⟨hdistinct _ _ _ _ hfind hviewer, fun hid => ?_⟩
      (hnames _ _ hfind hbeing)
    rw [hid, hviewer] at hfind
    rw [Option.some.inj hfind]
  have hids' : ∀ e ∈ g.beings.filter fun e => e.Stirs viewer range, e.publicId ≠ none :=
    fun e he => hids _ _ (hmem (List.mem_filter.mp he).1).1
  refine ⟨g.beings, ?_, fun e => hwithin.mem_beings_iff, _,
    (hindexed.diff_eq hwithin hnews).trans (congrArg _ (News.messages_map_tidings ..)), ?_, ?_⟩
  · exact (hwithin.pairwise_entities.filter _).imp fun hlt =>
      UInt32.lt_iff_toNat_lt.mpr (EntityId.compare_eq_lt_iff.mp hlt)
  · intro hnone
    have hempty : (g.beings.filter fun e => e.Stirs viewer range) = [] :=
      List.filter_eq_nil_iff.mpr fun e he => by simpa using hnone e he
    rw [hempty]
    rfl
  · rintro ⟨e, he, hstirs⟩
    have hsome : (g.beings.filter fun e => e.Stirs viewer range).isEmpty = false :=
      List.isEmpty_eq_false_iff_exists_mem.mpr ⟨e, List.mem_filter.mpr ⟨he, by simpa using hstirs⟩⟩
    rw [hsome]
    exact ⟨_, rfl, MoveEntry.tellsMovesOf_notice hids'⟩

/-! ### An example -/

/-- Somebody else comes to where a monster has crossed the edge of a zone before the eyes of a
player. -/
def company : Region :=
  crossing.execute (.insert ((Entity.player (.nth 3) ⟨"Bea", 0, 0, 0⟩ ⟨1⟩ ⟨60, 60⟩).raise
    { newOnMap := true }))

/-- The viewer is told of the walker, in the notice at the end of its news. -/
theorem survey_at_company : ∃ viewer walker, company.refile.find? (.nth 2) = some viewer ∧
    company.refile.find? (.nth 1) = some walker ∧ ∃ news m l,
      company.refile.diff viewer 300 = .ok (news ++ [m]) ∧ m.TellsMovesOf viewer 300 l ∧
        walker ∈ l := by
  have hcrossing : Reaches execute AdmitsAtRest yard crossing :=
    Reaches.foldl _ _ (by simp [AdmitsAtRest, Entity.monster, Entity.player])
  have hreach : Reaches execute AdmitsAtRest yard company := hcrossing.step _ rfl
  have horderly : company.Orderly :=
    hreach.invariant (orderly_vacant ..) fun _ _ ht hc => ht.execute hc
  have hwithin : company.refile.Within := (horderly.execute (c := .refile) trivial).toWithin
  have hallotted : company.refile.Allotted 3 :=
    (hreach.invariant (allotted_vacant ..) fun _ c ht _ => ht.execute c).execute .refile
  have hnames : (company.refile.entities.all fun e => e.kind.NameFits) = true := by cbv
  have hviewer : (company.refile.find? (.nth 2)).map (fun e => (e.id, e.position)) =
      some (.nth 2, ⟨40, 40⟩) := by cbv
  have hwalker : (company.refile.find? (.nth 1)).map (fun e =>
      (e.id, e.isBeing, e.oldPosition, e.position)) =
        some (.nth 1, true, ⟨252, 100⟩, ⟨260, 100⟩) := by cbv
  obtain ⟨viewer, hv, hviewer⟩ := Option.map_eq_some_iff.mp hviewer
  obtain ⟨walker, hw, hwalker⟩ := Option.map_eq_some_iff.mp hwalker
  simp only [Prod.mk.injEq] at hviewer hwalker
  obtain ⟨beings, -, hbeings, last, hdiff, -, hlast⟩ :=
    @survey_of_indexed _ viewer 300 horderly.indexed_refile hwithin
      (fun k e he => Option.ne_none_iff_exists'.mpr ((hallotted.taken he).imp fun _ hx => hx.1))
      (fun _ _ _ _ h h' => hallotted.distinct h h') (hviewer.1.symm ▸ hv)
      fun k e he _ _ _ => of_decide_eq_true (List.all_eq_true.mp hnames e (mem_entities_of_find? he))
  have hmem : walker ∈ beings := (hbeings walker).mpr ⟨by rw [hwalker.1]; exact hw, hwalker.2.1⟩
  have hstirs : walker.Stirs viewer 300 := by
    rw [Entity.Stirs, Entity.IsInView, hviewer.2, hwalker.2.2.1, hwalker.2.2.2]
    exact ⟨by decide, .inr (by decide)⟩
  obtain ⟨m, rfl, hm⟩ := hlast ⟨walker, hmem, hstirs⟩
  exact ⟨viewer, walker, hv, hw, _, m, _, hdiff, hm,
    List.mem_filter.mpr ⟨hmem, decide_eq_true hstirs⟩⟩

end Region

end TileWorld
