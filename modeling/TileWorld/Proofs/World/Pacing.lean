import TileWorld.Proofs.Client.Expectation
import TileWorld.Proofs.World.Round
import TileWorld.Proofs.World.View

/-!
# How often movement is told

The turn of a map ends in at most one notice of movement for each of its players. A player that is
sent to another map at the end of a turn may come to a map which is still to have its own turn, and
then it gets a second notice in the same tick (`World.moves_twice_at_ferry`). In between it is told
that it has come there: between two notices of movement in one tick there is always one that tells
of a map (`World.paced_of_reaches`). Who goes nowhere in a tick is told of movement at most once.
-/

namespace TileWorld

open Relation Delivery

/-! ### Notices of movement among others -/

namespace Message

/-- The message tells of movement. -/
def TellsMove (m : Message) : Prop := m.opcode = Opcode.beingsMove

/-- The message tells a player that it is on a map. -/
def TellsMap (m : Message) : Prop := m.opcode = Opcode.mapChange

instance (m : Message) : Decidable m.TellsMove := inferInstanceAs (Decidable (_ = _))

end Message

/-- Nothing was told of movement after the last time that a map was told of. -/
def Unmoved (ms : List Message) : Prop :=
  Throughout (fun _ m after => m.TellsMove → ∃ n ∈ after, n.TellsMap) ms

/-- Between two notices of movement there is one that tells of a map. -/
def Paced (ms : List Message) : Prop :=
  Throughout (fun before m _ => m.TellsMove → Unmoved before) ms

variable {ms ms' : List Message}

theorem unmoved_nil : Unmoved [] := throughout_nil

theorem paced_nil : Paced [] := throughout_nil

/-- After a notice of a map nothing has been told of movement. -/
theorem unmoved_append_map (ms : List Message) {m : Message} (hm : m.TellsMap) :
    Unmoved (ms ++ [m]) := by
  refine throughout_append (throughout_of_forall_mem fun _ _ _ after _ => ?_)
    (throughout_singleton fun hmove => absurd (hmove.symm.trans hm) (by decide))
  exact ⟨m, List.mem_append_right _ List.mem_cons_self, hm⟩

theorem Unmoved.append (h : Unmoved ms) (h' : ∀ m ∈ ms', ¬ m.TellsMove) : Unmoved (ms ++ ms') := by
  refine throughout_append (h.imp fun hafter hmove => ?_)
    (throughout_of_forall_mem fun m hm _ _ hmove => absurd hmove (h' m hm))
  obtain ⟨n, hn, hmap⟩ := hafter hmove
  exact ⟨n, List.mem_append_left _ hn, hmap⟩

theorem Paced.append (h : Paced ms) (h' : ∀ m ∈ ms', ¬ m.TellsMove) : Paced (ms ++ ms') :=
  throughout_append h (throughout_of_forall_mem fun m hm _ _ hmove => absurd hmove (h' m hm))

/-- After nothing was told of movement, it can be told of once. -/
theorem Paced.append_move (h : Paced ms) (hunmoved : Unmoved ms) (h' : ∀ m ∈ ms', ¬ m.TellsMove)
    (last : Message) : Paced (ms ++ (ms' ++ [last])) := by
  rw [← List.append_assoc]
  refine throughout_append (h.append h') (throughout_singleton fun _ => ?_)
  rw [List.append_nil]
  exact hunmoved.append h'

/-- Who is told of no map is told of movement at most once. -/
theorem Paced.length_le_one (h : Paced ms) (hmaps : ∀ m ∈ ms, ¬ m.TellsMap) :
    (ms.filter fun m => m.TellsMove).length ≤ 1 := by
  by_cases hsome : ∃ m ∈ ms, m.TellsMove
  · obtain ⟨m, hm, hmove⟩ := hsome
    obtain ⟨before, after, rfl⟩ := List.append_of_mem hm
    -- one notice of movement before another would be followed by one that tells of a map
    have hbefore : before.filter (fun m => m.TellsMove) = [] := by
      rw [List.filter_eq_nil_iff]
      intro m' hm' hmove'
      obtain ⟨l, between, rfl⟩ := List.append_of_mem hm'
      obtain ⟨n, hn, hmap⟩ := h _ m after rfl hmove l m' between rfl (of_decide_eq_true hmove')
      exact hmaps n (by simp [hn]) hmap
    have hafter : after.filter (fun m => m.TellsMove) = [] := by
      rw [List.filter_eq_nil_iff]
      intro m' hm' hmove'
      obtain ⟨between, l, rfl⟩ := List.append_of_mem hm'
      obtain ⟨n, hn, hmap⟩ := h (before ++ m :: between) m' l (by simp)
        (of_decide_eq_true hmove') before m between rfl hmove
      exact hmaps n (by simp [hn]) hmap
    simp [List.filter_append, hbefore, hmove, hafter]
  · rw [List.filter_eq_nil_iff.mpr fun m hm hmove => hsome ⟨m, hm, of_decide_eq_true hmove⟩]
    exact Nat.zero_le _

/-! ### The news of a turn -/

theorem not_tellsMove_leaveNotice (x : PublicId) : ¬ (leaveNotice x).TellsMove :=
  fun h => absurd h (by decide : ¬ Opcode.beingLeave = _)

theorem not_tellsMove_attackNotice (x : PublicId) : ¬ (attackNotice x).TellsMove :=
  fun h => absurd h (by decide : ¬ Opcode.beingAttack = _)

theorem not_tellsMove_of_enterNotice {e : Entity} {x : PublicId} {m : Message}
    (h : e.enterNotice x = .ok m) : ¬ m.TellsMove := by
  obtain ⟨-, rfl⟩ := Entity.enterNotice_eq_ok_iff.mp h
  exact fun h => absurd h (by decide : ¬ Opcode.beingEnter = _)

theorem not_tellsMove_of_chatNotice {speaker : Option PublicId} {text : String} {m : Message}
    (h : chatNotice speaker text = .ok m) : ¬ m.TellsMove := by
  obtain ⟨-, rfl⟩ := chatNotice_eq_ok_iff.mp h
  exact fun h => absurd h (by decide : ¬ Opcode.chat = _)

theorem tellsMap_of_mapNotice {title : String} {p : Point} {m : Message}
    (h : mapNotice title p = .ok m) : m.TellsMap := by
  obtain ⟨-, rfl⟩ := mapNotice_eq_ok_iff.mp h
  rfl

theorem Message.TellsMap.not_tellsMove {m : Message} (h : m.TellsMap) : ¬ m.TellsMove :=
  fun hmove => absurd (hmove.symm.trans h) (by decide)

/-- The notices about one being alone do not tell of movement. -/
theorem Entity.not_tellsMove_of_newsFor {e viewer : Entity} {range : UInt16} {news : News}
    (h : e.newsFor viewer range = .ok news) : ∀ m ∈ news.notices, ¬ m.TellsMove := by
  have hattack {x : PublicId} {b : Bool} :
      ∀ m ∈ (if b then [attackNotice x] else []), ¬ m.TellsMove := by
    intro m hm
    rcases b
    · cases hm
    · rw [List.mem_singleton.mp hm]
      exact not_tellsMove_attackNotice x
  rw [newsFor] at h
  rcases hx : e.publicId with _ | x
  · simp only [hx, Except.ok.injEq] at h
    subst h
    exact fun m hm => absurd hm List.not_mem_nil
  · rcases hwas : e.wasSeenBy viewer range <;> rcases his : e.isSeenBy viewer range <;>
      simp only [hx, hwas, his] at h
    · cases h
      exact hattack
    · rcases henter : e.enterNotice x with err | enter
      · simp [henter, bind, Except.bind] at h
      · simp only [henter, bind, Except.bind, pure, Except.pure, Except.ok.injEq] at h
        subst h
        refine List.forall_mem_append.mpr ⟨hattack, ?_⟩
        exact List.forall_mem_singleton.mpr (not_tellsMove_of_enterNotice henter)
    · cases h
      refine List.forall_mem_append.mpr ⟨hattack, ?_⟩
      exact List.forall_mem_singleton.mpr (not_tellsMove_leaveNotice x)
    · cases h
      exact hattack

/-- What comes of going through a list with something that may fail comes of one of the list. -/
theorem exists_of_mem_mapM {α β ε : Type} {f : α → Except ε β} {l : List α} {l' : List β}
    (h : l.mapM f = .ok l') {b : β} (hb : b ∈ l') : ∃ a ∈ l, f a = .ok b := by
  induction l generalizing l' with
  | nil =>
    cases h
    cases hb
  | cons a l ih =>
    rw [List.mapM_cons] at h
    rcases ha : f a with err | b₀
    · simp [ha, bind, Except.bind] at h
    · rcases hl : l.mapM f with err | bs
      · simp [ha, hl, bind, Except.bind] at h
      · simp only [ha, hl, bind, Except.bind, pure, Except.pure, Except.ok.injEq] at h
        subst h
        obtain rfl | hb := List.mem_cons.mp hb
        · exact ⟨a, List.mem_cons_self, ha⟩
        · obtain ⟨a', ha', hfa'⟩ := ih hl hb
          exact ⟨a', List.mem_cons_of_mem _ ha', hfa'⟩

/-- The news of a turn do not tell of movement, but for one notice at the end. -/
theorem Region.diff_cases {g : Region} {viewer : Entity} {range : UInt16}
    (h : g.diff viewer range = .ok ms) : ∃ notices last, ms = notices ++ last ∧
      (∀ m ∈ notices, ¬ m.TellsMove) ∧ (last = [] ∨ ∃ entries, last = [MoveEntry.notice entries]) := by
  rw [diff] at h
  rcases hnews : (g.beingsConcerning viewer range).mapM fun e => e.newsFor viewer range with
    err | news
  · simp [hnews, bind, Except.bind] at h
  · simp only [hnews, bind, Except.bind, pure, Except.pure, Except.ok.injEq] at h
    subst h
    refine ⟨_, _, rfl, ?_, ?_⟩
    · intro m hm
      obtain ⟨n, hn, hm⟩ := List.mem_flatMap.mp hm
      obtain ⟨e, -, he⟩ := exists_of_mem_mapM hnews hn
      exact Entity.not_tellsMove_of_newsFor he m hm
    · split
      · exact .inl rfl
      · exact .inr ⟨_, rfl⟩

/-- After nothing was told of movement, the news of a turn tell of it at most once. -/
theorem Paced.append_diff {g : Region} {viewer : Entity} {range : UInt16} (h : Paced ms)
    (hunmoved : Unmoved ms) : Paced (ms ++ (g.diff viewer range).toOption.getD []) := by
  rcases hdiff : g.diff viewer range with err | news
  · exact h.append fun m hm => absurd hm List.not_mem_nil
  · obtain ⟨notices, last, rfl, hstill, rfl | ⟨entries, rfl⟩⟩ := Region.diff_cases hdiff
    · rw [← List.append_nil notices] at hstill
      exact h.append hstill
    · exact h.append_move hunmoved hstill _

namespace World

variable {J : EntityId → Prop} {w v v' : World} {k : EntityId} {maps : List MapId}

/-! ### What somebody is told in a tick -/

/-- An entity rests while `maps` are still to have their turn if it is on none of them, and a player
wherever it is. -/
def Rests (v : World) (k : EntityId) (maps : List MapId) : Prop :=
  v.Issued k ∧ ∀ m o, v.Finds m k o → o.isPlayer = true ∧ m ∉ maps

/-- Since a tick began at `w`, somebody has not been told of movement too often, and whoever has
been told of it will not be told again by one of `maps`, which are still to have their turn. -/
structure Pacing (w : World) (k : EntityId) (maps : List MapId) (v : World) : Prop where
  titles : ∀ map, Field.Fits (v.mapTitle map)
  told : ∃ said, v.messagesFor k = w.messagesFor k ++ said ∧ Paced said ∧
    (Unmoved said ∨ v.Rests k maps)

/-- Whoever rests goes on resting if it is found nowhere else. -/
theorem Rests.of_finds (h : v.Rests k maps) (hle : v.issued ≤ v'.issued)
    (hfinds : ∀ m o, v'.Finds m k o → v.Finds m k o) : v'.Rests k maps :=
  ⟨h.1.of_le hle, fun m o ho => h.2 m o (hfinds m o ho)⟩

/-- Messages that do not tell of movement are harmless, as long as whoever rests goes on resting or
is told of a map in the end. -/
theorem Pacing.post (h : Pacing w k maps v) {ds : List Delivery} (hatlas : v'.atlas = v.atlas)
    (houtbox : v'.outbox = v.outbox ++ ds) (hds : ∀ d ∈ ds, ¬ d.message.TellsMove)
    (hrests : v.Rests k maps →
      v'.Rests k maps ∨ ∃ ms m, messagesTo ds k = ms ++ [m] ∧ m.TellsMap) :
    Pacing w k maps v' := by
  obtain ⟨said, hsaid, hpaced, hstart⟩ := h.told
  have hstill : ∀ m ∈ messagesTo ds k, ¬ m.TellsMove := by
    intro m hm
    obtain ⟨d, hd, rfl⟩ := List.mem_map.mp hm
    exact hds d (List.mem_filter.mp hd).1
  refine ⟨fun map => ?_, said ++ messagesTo ds k, ?_, hpaced.append hstill, ?_⟩
  · rw [mapTitle, hatlas]
    exact h.titles map
  · rw [messagesFor_append houtbox, hsaid, List.append_assoc]
  · obtain hunmoved | hrest := hstart
    · exact .inl (hunmoved.append hstill)
    · obtain hrest' | ⟨ms, m, heq, hmap⟩ := hrests hrest
      · exact .inr hrest'
      · rw [heq, ← List.append_assoc]
        exact .inl (unmoved_append_map _ hmap)

/-- Nothing happens to the pace if nobody is told anything and nobody comes. -/
theorem Pacing.congr (h : Pacing w k maps v) (hatlas : v'.atlas = v.atlas)
    (houtbox : v'.outbox = v.outbox) (hle : v.issued ≤ v'.issued)
    (hfinds : ∀ m o, v'.Finds m k o → v.Finds m k o) : Pacing w k maps v' := by
  have hsame : v'.outbox = v.outbox ++ [] := houtbox.trans (List.append_nil _).symm
  exact h.post hatlas hsame (fun _ hd => absurd hd List.not_mem_nil) fun hrests =>
    .inl (hrests.of_finds hle hfinds)

theorem not_tellsMove_of_mem_farewells {g : Region} {e : Entity} {d : Delivery}
    (h : d ∈ w.farewells g e) : ¬ d.message.TellsMove := by
  rw [farewells] at h
  split at h
  · rename_i x _ _
    obtain ⟨id, -, rfl⟩ := List.mem_map.mp h
    exact not_tellsMove_leaveNotice x
  · cases h

theorem Pacing.remove (h : Pacing w k maps v) {id : EntityId} {cause : RemovalCause} {e : Entity}
    (hrem : v.remove id cause = some (e, v')) : Pacing w k maps v' := by
  have hfinds (m : MapId) (o : Entity) : v'.Finds m k o → v.Finds m k o := finds_of_remove hrem
  obtain ⟨map, g, leaving, g', -, -, -, -, rfl⟩ := remove_eq_some_iff.mp hrem
  exact h.post rfl rfl (fun d hd => not_tellsMove_of_mem_farewells hd) fun hrests =>
    .inl (hrests.of_finds (Nat.le_refl _) hfinds)

/-- Only a player that comes is told of a map, and it is told of nothing else. -/
theorem arrivals_cases (htitles : ∀ map, Field.Fits (w.mapTitle map)) (e : Entity) :
    (e.isPlayer = false ∧ w.arrivals e = []) ∨
      (e.isPlayer = true ∧ ∃ m, m.TellsMap ∧ w.arrivals e = [⟨e.id, m⟩]) := by
  rw [arrivals]
  rcases hplayer : e.isPlayer
  · exact .inl ⟨rfl, rfl⟩
  · have hnotice := mapNotice_eq_ok_iff (p := e.position) |>.mpr ⟨htitles e.map, rfl⟩
    rw [if_pos rfl, hnotice]
    exact .inr ⟨rfl, _, tellsMap_of_mapNotice hnotice, rfl⟩

/-- Whoever goes elsewhere is told so, and from then on may be told of movement again. -/
theorem Pacing.jump (h : Pacing w k maps v) (hv : v.Sound) {v₁ : World} {id : EntityId} {e : Entity}
    {map : MapId} {p : Point} {x : PublicId} {g g' : Region}
    (hrem : v.remove id .warp = some (e, v₁)) (hcomes : v₁.Comes (e.place map p) x g g') :
    Pacing w k maps (v₁.welcome (e.place map p) g') := by
  have htitles := (h.remove hrem).titles
  have hid : e.id = id := (hv.issued_remove hrem).1
  have hfinds (m : MapId) (o : Entity) (hk : k ≠ e.id) :
      (v₁.welcome (e.place map p) g').Finds m k o → v.Finds m k o := by
    intro ho
    obtain ho | ⟨rfl, -⟩ := finds_of_welcome hcomes ho
    · exact finds_of_remove hrem ho
    · exact absurd rfl hk
  have hissued : v₁.issued = v.issued := (frame_remove hrem).issued
  obtain ⟨m, g₀, leaving, g₁, -, hg₀, hleaving, hgrem, rfl⟩ := remove_eq_some_iff.mp hrem
  refine h.post rfl (List.append_assoc ..) ?_ ?_
  · intro d hd
    obtain hd | hd := List.mem_append.mp hd
    · exact not_tellsMove_of_mem_farewells hd
    · obtain ⟨-, hnil⟩ | ⟨-, m, hmap, hone⟩ := arrivals_cases htitles (e.place map p)
      · rw [hnil] at hd
        cases hd
      · rw [hone] at hd
        rw [List.mem_singleton.mp hd]
        exact hmap.not_tellsMove
  · intro hrests
    by_cases hk : k = e.id
    · -- it is the one that goes elsewhere, and it is a player
      have hplayer : e.isPlayer = true := by
        obtain ⟨e₀, he₀, rfl, -⟩ := Region.remove_eq_some_iff.mp hgrem
        exact (hrests.2 m e₀ ⟨g₀, hg₀, by rw [hk, hid, he₀]⟩).1
      obtain ⟨hnot, -⟩ | ⟨-, m, hmap, hone⟩ := arrivals_cases htitles (e.place map p)
      · exact absurd (hplayer.symm.trans hnot) (by decide)
      · refine .inr ⟨messagesTo (v.farewells g₀ leaving) k, m, ?_, hmap⟩
        rw [messagesTo_append, hone, hk]
        simp [messagesTo, Entity.place]
    · exact .inl (hrests.of_finds (Nat.le_of_eq hissued.symm) fun m o => hfinds m o hk)

/-- Whatever happens between the turns of maps, the pace is kept. -/
theorem Pacing.alters (h : Pacing w k maps v) (hv : v.Sound)
    (halters : Alters (.during J fun _ => False) v v') : Pacing w k maps v' := by
  cases halters with
  | @opens map plan =>
    refine h.congr rfl rfl (Nat.le_refl _) fun m o ho => ?_
    obtain ⟨-, hk⟩ | ⟨-, ho⟩ := (finds_update_iff fun _ => Table.getElem?_insert ..).mp ho
    · simp [regionOfPlan, Region.empty, Region.find?] at hk
    · exact ho
  | issues => exact h.congr rfl rfl (Nat.le_succ _) fun m o ho => ho
  | comes _ _ hkind => exact hkind.elim
  | leaves hrem => exact h.remove hrem
  | jumps hrem hcomes => exact h.jump hv hrem hcomes
  | @falls v₁ id e hrem =>
    have hpacing := h.remove hrem
    rcases e.isPlayer
    · exact hpacing
    · exact hpacing.congr rfl rfl (Nat.le_refl _) fun m o ho => ho
  | walks _ _ _ hwalks => exact hwalks.elim
  | attacks _ _ hattacks => exact hattacks.elim
  | speaks hchat ids =>
    refine h.post rfl rfl (fun d hd => ?_) fun hrests => .inl hrests
    obtain ⟨id, -, rfl⟩ := List.mem_map.mp hd
    exact not_tellsMove_of_chatNotice hchat
  | turns _ _ hturns => exact hturns.elim
  | notes => exact h.congr rfl rfl (Nat.le_refl _) fun m o ho => ho

/-- Whoever is found after the turn of a map was there before, player or not, or its identity had not
been given out. -/
theorem finds_before_turn {map m : MapId} {g : Region} {o : Entity} (hv : v.Sound)
    (hg : v.region? map = some g) (report : TickReport) (hlt : (v.worked g).issued < UInt32.size)
    (ho : (v.passRegion g report).2.Finds m k o) :
    (∃ e, v.Finds m k e ∧ o.isPlayer = e.isPlayer) ∨ (m = map ∧ ¬ v.Issued k) := by
  obtain ⟨-, ho⟩ | ⟨rfl, e, he, rfl⟩ := (finds_turn_iff (hv.region hg).1 report).mp ho
  · exact .inl ⟨o, ho, rfl⟩
  · obtain ⟨e₀, r, he₀, rfl⟩ | ⟨hnew, -⟩ := v.stems_worked g hlt k e he
    · refine .inl ⟨e₀, ⟨g, hg, he₀⟩, ?_⟩
      exact (e₀.persists_live g.terrain r).isPlayer
    · exact .inr ⟨rfl, hnew⟩

/-- In the turn of a map one is told nothing, or is a player of the map and gets its news. -/
theorem told_in_turn {map : MapId} {g : Region} (hv : v.Sound) (hg : v.region? map = some g)
    (report : TickReport) (hlt : (v.worked g).issued < UInt32.size) (k : EntityId) :
    ∃ said, (v.passRegion g report).2.messagesFor k = v.messagesFor k ++ said ∧
      (said = [] ∨ (∃ e, v.Finds map k e ∧ e.isPlayer = true) ∧
        ∃ g' viewer, said = (Region.diff g' viewer v.config.range).toOption.getD []) := by
  obtain ⟨fixtures, heq⟩ := v.passRegion_eq g report
  have hregion := hv.fitted_worked hg hlt fixtures
  refine ⟨_, messagesFor_append (by rw [heq]; rfl) k, ?_⟩
  refine (Region.messagesTo_synchronize_cases hregion.placed v.config.range k).imp_right ?_
  rintro ⟨p, hp, hplayer⟩
  have hnews : messagesTo (((v.worked g).region.fitted fixtures).synchronize v.config.range) p.id =
      _ := Region.messagesTo_synchronize_eq hregion.placed hp hplayer
  rw [hregion.placed.id_eq hp] at hnews
  obtain ⟨e₀, r, he₀, rfl⟩ | ⟨-, hnot⟩ := v.stems_worked g hlt k p hp
  · have hsame := (e₀.persists_live g.terrain r).isPlayer
    exact ⟨⟨e₀, ⟨g, hg, he₀⟩, hsame.symm.trans hplayer⟩, _, _, hnews⟩
  · exact absurd (hplayer.symm.trans hnot) (by decide)

/-- In its turn a map tells each of its players of movement at most once. -/
theorem Pacing.turn {map : MapId} {g : Region} (h : Pacing w k (map :: maps) v) (hv : v.Sound)
    (hg : v.region? map = some g) (hnot : map ∉ maps) (report : TickReport)
    (hlt : (v.passRegion g report).2.issued < UInt32.size) :
    Pacing w k maps (v.passRegion g report).2 := by
  obtain ⟨said, hsaid, hpaced, hstart⟩ := h.told
  obtain ⟨fixtures, heq⟩ := v.passRegion_eq g report
  have hissued : (v.passRegion g report).2.issued = (v.worked g).issued := by rw [heq]; rfl
  have hatlas : (v.passRegion g report).2.atlas = v.atlas := by rw [heq]; rfl
  have hle : v.issued ≤ (v.passRegion g report).2.issued := hissued ▸ v.issued_le_worked g
  rw [hissued] at hlt
  obtain ⟨news, htold, hnews⟩ := told_in_turn hv hg report hlt k
  rw [hsaid, List.append_assoc] at htold
  refine ⟨fun m => ?_, _, htold, ?_⟩
  · rw [mapTitle, hatlas]
    exact h.titles m
  obtain rfl | ⟨⟨e, hthere, hplayer⟩, g', viewer, rfl⟩ := hnews
  · -- if it rests it was not on this map, and it does not come up here
    rw [List.append_nil]
    refine ⟨hpaced, hstart.imp_right fun hrests => ⟨hrests.1.of_le hle, fun m o ho => ?_⟩⟩
    obtain ⟨e, he, hsame⟩ | ⟨-, hnew⟩ := finds_before_turn hv hg report hlt ho
    · obtain ⟨hplayer, hm⟩ := hrests.2 m e he
      exact ⟨hsame.trans hplayer, fun hmem => hm (List.mem_cons_of_mem _ hmem)⟩
    · exact absurd hrests.1 hnew
  · -- it is a player of this map, and this map was still to have its turn
    have hunmoved : Unmoved said :=
      hstart.resolve_right fun hrests => (hrests.2 map e hthere).2 List.mem_cons_self
    have hissued : v.Issued k := by
      obtain ⟨g, hg, he⟩ := hthere
      exact hv.issued (hv.located.mpr ⟨g, e, hg, he⟩)
    refine ⟨hpaced.append_diff hunmoved, .inr ⟨hissued.of_le hle, fun m o ho => ?_⟩⟩
    obtain ⟨e', he', hsame⟩ | ⟨-, hnew⟩ := finds_before_turn hv hg report hlt ho
    · obtain ⟨rfl, rfl⟩ := hv.finds_unique he' hthere
      exact ⟨hsame.trans hplayer, hnot⟩
    · exact absurd hissued hnew

/-- The pace is kept by everything that happens in a tick but the turns. -/
theorem Pacing.develops (h : Pacing w k maps v) (hv : v.Sound)
    (hdev : Develops (.during J fun _ => False) v v') (hlt : v'.issued < UInt32.size) :
    Pacing w k maps v' :=
  hv.keeps (P := Pacing w k maps) hdev (fun hv halters _ h => h.alters hv halters) h hlt

theorem Pacing.settle (h : Pacing w k maps v) (hv : v.Sound) (report : TickReport)
    (hlt : (v.settle report).2.issued < UInt32.size) : Pacing w k maps (v.settle report).2 :=
  h.develops hv (develops_settle (t := .during (fun _ => True) fun _ => False)
    (fun d _ => Terms.mayApply (fun _ => trivial) (fun _ => trivial) d) report) hlt

/-- One map less is still to have its turn. -/
theorem Pacing.passMap {map : MapId} (h : Pacing w k (map :: maps) v) (hv : v.Sound)
    (hnot : map ∉ maps) (report : TickReport)
    (hlt : (passMap map (report, v)).2.issued < UInt32.size) :
    Pacing w k maps (passMap map (report, v)).2 := by
  obtain ⟨hg, heq⟩ | ⟨g, report', hg, hturn, hlt', heq⟩ := hv.passMap_cases map report hlt
  · rw [heq]
    refine ⟨h.titles, ?_⟩
    obtain ⟨said, hsaid, hpaced, hstart⟩ := h.told
    refine ⟨said, hsaid, hpaced, hstart.imp_right fun hrests => ⟨hrests.1, fun m o ho => ?_⟩⟩
    exact (hrests.2 m o ho).imp_right fun hm hmem => hm (List.mem_cons_of_mem _ hmem)
  · rw [heq] at hlt ⊢
    exact (h.turn hv hg hnot report hlt').settle hturn report' hlt

/-! ### Whole ticks -/

/-- Over a whole tick somebody is paced. -/
theorem pacing_tick (hw : w.Sound) (htitles : ∀ map, Field.Fits (w.mapTitle map))
    (hlt : w.tick.2.issued < UInt32.size) (k : EntityId) : Pacing w k [] w.tick.2 := by
  obtain ⟨report, v, hv, ⟨-, hpacing⟩, heq⟩ := hw.tick_eq_settle
    (I := fun maps v => maps.Nodup ∧ Pacing w k maps v)
    (fun map maps v report hv ⟨hnodup, hpacing⟩ hlt =>
      ⟨(List.nodup_cons.mp hnodup).2,
        hpacing.passMap hv (List.nodup_cons.mp hnodup).1 report hlt⟩)
    ⟨Std.ExtTreeMap.nodup_keys, htitles, [], (List.append_nil _).symm, paced_nil, .inl unmoved_nil⟩
    hlt
  rw [heq] at hlt ⊢
  exact hpacing.settle hv report hlt

theorem atlas_remove {id : EntityId} {cause : RemovalCause} {e : Entity}
    (h : v.remove id cause = some (e, v')) : v'.atlas = v.atlas := by
  obtain ⟨map, g, leaving, g', -, -, -, -, rfl⟩ := remove_eq_some_iff.mp h
  rfl

/-- The source of maps and characters never changes. -/
theorem Alters.atlas_eq {t : Terms} (h : Alters t v v') : v'.atlas = v.atlas := by
  cases h with
  | leaves h => exact atlas_remove h
  | jumps h => exact (atlas_remove h :)
  | @falls v₁ id e h => rcases e.isPlayer <;> exact (atlas_remove h :)
  | @turns map g h report =>
    obtain ⟨fixtures, heq⟩ := v.passRegion_eq g report
    rw [heq]
    rfl
  | _ => rfl

/-- If the names of maps fit, then between two notices of movement that somebody gets in one tick there
is one that tells of a map. Who is told of no map in a tick is told of movement at most once. -/
theorem paced_of_reaches {config : WorldConfig} {atlas : Atlas} {w : World}
    (hmaps : ∀ map name, atlas.mapName map = some name → Field.Fits name)
    (h : Reaches execute Allows (empty config atlas) w) (hlt : w.tick.2.issued < UInt32.size)
    (k : EntityId) :
    ∃ said, w.tick.2.messagesFor k = w.messagesFor k ++ said ∧
      (∀ before m between m' after, said = before ++ m :: (between ++ m' :: after) →
        m.opcode = Opcode.beingsMove → m'.opcode = Opcode.beingsMove →
          ∃ n ∈ between, n.opcode = Opcode.mapChange) ∧
      ((∀ m ∈ said, m.opcode ≠ Opcode.mapChange) →
        (said.filter fun m => m.opcode = Opcode.beingsMove).length ≤ 1) := by
  have hdev := develops_of_allows h
  have hw : w.Sound :=
    (sound_empty config atlas).develops hdev (Nat.lt_of_le_of_lt w.issued_le_tick hlt)
  have hatlas : w.atlas = atlas :=
    hdev.keeps (P := fun v => v.atlas = atlas) (fun h hv => h.atlas_eq.trans hv) rfl
  have htitles (map : MapId) : Field.Fits (w.mapTitle map) := by
    have hfits : Field.Fits ((empty config atlas).mapTitle map) := fits_mapTitle hmaps map
    rw [mapTitle, hatlas]
    exact hfits
  obtain ⟨said, hsaid, hpaced, -⟩ := (pacing_tick hw htitles hlt k).told
  refine ⟨said, hsaid, ?_, hpaced.length_le_one⟩
  rintro before m between m' after rfl hm hm'
  exact hpaced (before ++ m :: between) m' after (by simp) hm' before m between rfl hm

/-! ### An example -/

/-- A ferry leads from the place where all characters begin to a cave. -/
def ferry : Atlas where
  plan map :=
    if map = ⟨1⟩ then some ⟨.clear 120 120, [.gate ⟨⟨1600, 1600, 32, 32⟩, ⟨2⟩, ⟨320, 320⟩⟩]⟩
    else if map = ⟨2⟩ then some ⟨.clear 20 20, []⟩
    else none
  mapName _ := none
  character _ := none

/-- Ann is about to go to the cave, which is in use. -/
def departure : World := [.activate ⟨2⟩, .enter "Ann"].foldl execute (empty {} ferry)

theorem reaches_departure : Reaches execute Allows (empty {} ferry) departure :=
  Reaches.foldl _ _ (by simp [Allows])

/-- What Ann is told in the next tick: she sees herself on the first map, comes to the cave, and sees
herself there. -/
def toldOnFerry : List Message :=
  [plainEntrance ⟨0⟩ "Ann", MoveEntry.notice [⟨⟨0⟩, none, some ⟨1600, 1600⟩⟩],
    ⟨Opcode.mapChange, [1, 0, 50, 64, 1, 64, 1, 0]⟩, plainEntrance ⟨0⟩ "Ann",
    MoveEntry.notice [⟨⟨0⟩, none, some ⟨320, 320⟩⟩]]

/-- What Ann is told in the tick in which she goes to the cave. -/
theorem messagesFor_tick_departure :
    departure.tick.2.messagesFor (.nth 1) = departure.messagesFor (.nth 1) ++ toldOnFerry := by
  cbv

/-- Ann is told of movement twice in one tick, once for each map. -/
theorem moves_twice_at_ferry :
    ∃ said, Reaches execute Allows (empty {} ferry) departure ∧
      departure.tick.2.messagesFor (.nth 1) = departure.messagesFor (.nth 1) ++ said ∧
      (said.filter fun m => m.opcode = Opcode.beingsMove).length = 2 :=
  ⟨toldOnFerry, reaches_departure, messagesFor_tick_departure, by cbv⟩

/-- Between the two she is told of the cave. -/
theorem paced_at_ferry :
    departure.tick.2.messagesFor (.nth 1) = departure.messagesFor (.nth 1) ++ toldOnFerry ∧
      ∃ n ∈ (toldOnFerry.drop 2).take 2, n.opcode = Opcode.mapChange := by
  have hissued : departure.tick.2.issued = 1 := by cbv
  obtain ⟨said, hsaid, hpaced, -⟩ := paced_of_reaches (fun _ _ h => by simp [ferry] at h)
    reaches_departure (by rw [hissued]; decide) (.nth 1)
  obtain rfl : toldOnFerry = said :=
    List.append_cancel_left (messagesFor_tick_departure.symm.trans hsaid)
  exact ⟨messagesFor_tick_departure, hpaced (toldOnFerry.take 1) _ _ _ [] rfl rfl rfl⟩

end World

end TileWorld
