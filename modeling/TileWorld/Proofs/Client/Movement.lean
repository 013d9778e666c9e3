import TileWorld.Proofs.Client.Expectation

/-!
# Movements that clients are told of

The news of a tick tell of movement in one notice, which comes last. Of the movement of a being they
say just what the entry about the being says (`Region.Sound.tells_diff_iff`): if it was in view and
still is, there is an entry if it moved, and where it has come to rest, the entry is the point where
it stands. If a character comes into view whose name does not fit, there are no news at all.
-/

namespace TileWorld

/-- Some messages tell of a movement: it is in a notice among them. -/
def Tells (ms : List Message) (m : MoveEntry) : Prop :=
  ∃ message ∈ ms, ∃ entries, Notification.decode message.bytes = .ok (.move entries) ∧ m ∈ entries

theorem tells_append {ms ms' : List Message} {m : MoveEntry} :
    Tells (ms ++ ms') m ↔ Tells ms m ∨ Tells ms' m := by
  simp only [Tells, List.mem_append, or_and_right, exists_or]

/-- Messages that are no notices of movement tell of none. -/
theorem not_tells {ms : List Message} {m : MoveEntry}
    (h : ∀ message ∈ ms, ∀ entries, Notification.decode message.bytes ≠ .ok (.move entries)) :
    ¬ Tells ms m := by
  rintro ⟨message, hmem, entries, hdecode, -⟩
  exact h message hmem entries hdecode

namespace Entity

variable {e viewer : Entity} {range : UInt16} {x : PublicId} {m : MoveEntry}

/-- The notices about a being alone tell of no movement. -/
theorem not_tells_notices (hx : e.publicId = some x) (h : e.kind.NameFits) :
    ¬ Tells (e.news viewer range).notices m := by
  obtain ⟨enter, henter, heq⟩ := notices_news viewer range hx h
  refine not_tells fun message hmem entries hmove => ?_
  rw [heq, attackNotices] at hmem
  rcases List.mem_append.mp hmem with hmem | hmem
  · split at hmem
    · rw [List.mem_singleton.mp hmem, Notification.decode_attackNotice] at hmove
      cases hmove
    · cases hmem
  · split at hmem
    · rw [List.mem_singleton.mp hmem, Notification.decode_enterNotice henter] at hmove
      cases hmove
    · rw [List.mem_singleton.mp hmem, Notification.decode_leaveNotice] at hmove
      cases hmove
    · cases hmem

/-- Only of beings in view is any movement told. -/
theorem isSeenBy_of_entryFor (h : e.entryFor viewer range x = some m) :
    e.isSeenBy viewer range = true := by
  rw [entryFor] at h
  split at h
  · cases h
  · cases h
  · assumption
  · assumption

/-- The entry about a being that has come to rest in view: there is one if it moved. -/
theorem entryFor_of_rest (hwas : e.wasSeenBy viewer range = true)
    (his : e.isSeenBy viewer range = true) (hrest : e.position = e.destination) :
    e.entryFor viewer range x =
      if e.oldPosition = e.position then none else some ⟨x, none, some e.position⟩ := by
  simp only [entryFor, hwas, his, moveEntry, ← hrest, if_true]

end Entity

/-- The news about some beings tell of the movements that the common notice speaks of. -/
theorem tells_messages_iff {viewer : Entity} {range : UInt16} {l : List Entity} {m : MoveEntry}
    (hid : ∀ e ∈ l, ∃ x, e.publicId = some x) (hfits : ∀ e ∈ l, e.kind.NameFits) :
    Tells (News.messages (l.map fun e => e.news viewer range)) m ↔
      ∃ e ∈ l, (e.news viewer range).move = some m := by
  have hmoves : m ∈ (l.map fun e => e.news viewer range).filterMap News.move ↔
      ∃ e ∈ l, (e.news viewer range).move = some m := by
    simp only [List.filterMap_map, List.mem_filterMap, Function.comp_apply]
  rw [News.messages, tells_append, ← hmoves]
  constructor
  · rintro (⟨message, hmem, htells⟩ | ⟨message, hmem, entries, hdecode, hm⟩)
    · obtain ⟨news, hnews, hmem⟩ := List.mem_flatMap.mp hmem
      obtain ⟨e, he, rfl⟩ := List.mem_map.mp hnews
      obtain ⟨x, hx⟩ := hid e he
      exact absurd ⟨message, hmem, htells⟩ (Entity.not_tells_notices hx (hfits e he))
    · split at hmem
      · cases hmem
      · rw [List.mem_singleton.mp hmem, Notification.decode_moveNotice] at hdecode
        cases hdecode
        exact hm
  · intro hm
    refine .inr ⟨_, ?_, _, Notification.decode_moveNotice _, hm⟩
    rw [if_neg (fun h => List.ne_nil_of_mem hm (List.isEmpty_iff.mp h))]
    exact List.mem_singleton_self _

/-- The news of a tick can be written, and what they tell of the movement of a being is its entry. -/
theorem Region.Sound.tells_diff_iff {g : Region} (hg : g.Sound)
    (hnames : ∀ {k e}, g.find? k = some e → e.kind.NameFits) {k : EntityId} {e : Entity}
    {x : PublicId} (hk : g.find? k = some e) (hbeing : e.isBeing = true)
    (hx : e.publicId = some x) (viewer : Entity) (range : UInt16) :
    ∃ ms, g.diff viewer range = .ok ms ∧
      ∀ m, Tells ms m ∧ m.publicId = x ↔ e.entryFor viewer range x = some m := by
  have hfits : ∀ e ∈ g.beingsConcerning viewer range, e.kind.NameFits := fun e he =>
    hnames (hg.find?_of_concerning he)
  refine ⟨_, diff_eq_ok hfits, fun m => ?_⟩
  rw [tells_messages_iff (fun e he => hg.exists_publicId_of_concerning he) hfits]
  constructor
  · rintro ⟨⟨e', he', hmove⟩, hm⟩
    obtain ⟨y, hy⟩ := hg.exists_publicId_of_concerning he'
    rw [Entity.move_news hy (hfits e' he')] at hmove
    obtain rfl : y = x := (Entity.publicId_of_entryFor hmove).symm.trans hm
    obtain rfl := hg.numbered.eq_of_publicId (hg.find?_of_concerning he') hk (hy.trans hx.symm)
    exact hmove
  · intro hentry
    refine ⟨⟨e, ?_, ?_⟩, Entity.publicId_of_entryFor hentry⟩
    · exact (hg.indexed.mem_beingsConcerning_iff hg.placed).mpr ⟨mem_entities_of_find? hk,
        Scene.concerns_of_isSeenBy hbeing (Entity.isSeenBy_of_entryFor hentry)⟩
    · rw [Entity.move_news hx (hnames hk), hentry]

/-- If the name of somebody who comes into view does not fit, the news cannot be written. -/
theorem Region.toOption_diff_of_unfit {g : Region} {viewer e : Entity} {range : UInt16}
    {x : PublicId} (he : e ∈ g.beingsConcerning viewer range) (hx : e.publicId = some x)
    (hwas : e.wasSeenBy viewer range = false) (his : e.isSeenBy viewer range = true)
    (h : ¬ e.kind.NameFits) : (g.diff viewer range).toOption = none := by
  have hunfit : ∃ err, e.newsFor viewer range = .error err := by
    rw [Entity.newsFor, hx, hwas, his]
    rcases henter : e.enterNotice x with err | m
    · exact ⟨err, by simp only [henter]; rfl⟩
    · exact absurd (Entity.enterNotice_eq_ok_iff.mp henter).1 h
  have hmap (l : List Entity) (hl : e ∈ l) :
      ∃ err, (l.mapM fun e => e.newsFor viewer range) = .error err := by
    induction l with
    | nil => cases hl
    | cons a l ih =>
      rw [List.mapM_cons]
      rcases ha : a.newsFor viewer range with err | news
      · exact ⟨err, rfl⟩
      · rcases List.mem_cons.mp hl with rfl | hl
        · obtain ⟨err, herr⟩ := hunfit
          cases ha.symm.trans herr
        · obtain ⟨err, herr⟩ := ih hl
          exact ⟨err, by rw [herr]; rfl⟩
  obtain ⟨err, herr⟩ := hmap _ he
  rw [diff, herr]
  rfl

end TileWorld
