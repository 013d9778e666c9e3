import TileWorld.Proofs.Client.Expectation
import TileWorld.Proofs.World.Delivery
import TileWorld.Proofs.World.Freshness
import TileWorld.Proofs.World.Names

/-!
# Who is told of an attack

When the players of a map look around, a player is told of an attack once if another being has attacked
that is in range of it, and is not told of it otherwise (`Region.Sound.count_synchronize`). A map
remembers an attack until its next turn, so each attack is told of in one tick and in no other:
`World.attacks_of_history`.
-/

namespace TileWorld

open Delivery

/-! ### What is said of an attack -/

/-- A notice of an attack says whose attack it was. -/
theorem attackNotice_injective : Function.Injective attackNotice := by
  intro x y heq
  have hdecode := congrArg (fun m => Notification.decode m.bytes) heq
  simp only [Notification.decode_attackNotice] at hdecode
  cases hdecode
  rfl

/-- Other notices than those of attacks do not count. -/
theorem count_attackNotice_eq_zero {ms : List Message} {x : PublicId}
    (h : ∀ a ∈ ms, a.opcode ≠ Opcode.beingAttack) : ms.count (attackNotice x) = 0 :=
  List.count_eq_zero.mpr fun hmem => h _ hmem rfl

namespace Entity

variable {e viewer : Entity} {range : UInt16} {x y : PublicId}

/-- Among the notices about a being alone, those of an attack name this being, and there is one of them
if the viewer is to be told. -/
theorem count_notices (hx : e.publicId = some x) (h : e.kind.NameFits) :
    (e.news viewer range).notices.count (attackNotice y) =
      if x = y ∧ e.attackIsSeenBy viewer range = true then 1 else 0 := by
  obtain ⟨m, henter, heq⟩ := notices_news viewer range hx h
  obtain ⟨-, rfl⟩ := enterNotice_eq_ok_iff.mp henter
  rw [heq, List.count_append]
  -- whoever comes into view or goes out of view is told of in other words
  refine (congrArg (_ + ·) (count_attackNotice_eq_zero fun a ha => ?_)).trans ?_
  · split at ha
    · rw [List.mem_singleton.mp ha]
      exact (by decide : Opcode.beingEnter ≠ Opcode.beingAttack)
    · rw [List.mem_singleton.mp ha]
      exact (by decide : Opcode.beingLeave ≠ Opcode.beingAttack)
    · cases ha
  · by_cases hseen : e.attackIsSeenBy viewer range = true
    · simp [attackNotices, hseen, List.count_singleton, attackNotice_injective.eq_iff]
    · simp [attackNotices, hseen]

end Entity

namespace News

variable {viewer : Entity} {range : UInt16} {l : List Entity} {x : PublicId}

/-- The common notice of movement is no notice of an attack. -/
theorem count_messages (news : List News) : (messages news).count (attackNotice x) =
    (news.flatMap notices).count (attackNotice x) := by
  rw [messages, List.count_append]
  refine congrArg (_ + ·) (count_attackNotice_eq_zero fun a ha => ?_)
  split at ha
  · cases ha
  · rw [List.mem_singleton.mp ha]
    exact (by decide : Opcode.beingsMove ≠ Opcode.beingAttack)

/-- The news about others says nothing of an attack by the being. -/
theorem count_messages_of_forall_ne (hid : ∀ e ∈ l, ∃ y, e.publicId = some y)
    (hfits : ∀ e ∈ l, e.kind.NameFits) (hne : ∀ e ∈ l, e.publicId ≠ some x) :
    (messages (l.map fun e => e.news viewer range)).count (attackNotice x) = 0 := by
  rw [count_messages, List.flatMap_map]
  refine List.count_eq_zero.mpr fun hmem => ?_
  obtain ⟨e, he, hmem⟩ := List.mem_flatMap.mp hmem
  obtain ⟨y, hy⟩ := hid e he
  refine List.count_pos_iff.mpr hmem |>.ne' ?_
  rw [Entity.count_notices hy (hfits e he), if_neg]
  rintro ⟨rfl, -⟩
  exact hne e he hy

/-- The news about several beings says as much of an attack by one of them as the news about it. -/
theorem count_messages_of_mem (hid : ∀ e ∈ l, ∃ y, e.publicId = some y)
    (hfits : ∀ e ∈ l, e.kind.NameFits) (hdistinct : l.Pairwise fun e e' => e.publicId ≠ e'.publicId)
    {o : Entity} (ho : o ∈ l) (hx : o.publicId = some x) :
    (messages (l.map fun e => e.news viewer range)).count (attackNotice x) =
      if o.attackIsSeenBy viewer range = true then 1 else 0 := by
  obtain ⟨l₁, l₂, rfl⟩ := List.append_of_mem ho
  obtain ⟨-, htail, hapart⟩ := List.pairwise_append.mp hdistinct
  have hothers {l : List Entity} (hl : ∀ e ∈ l, e ∈ l₁ ++ o :: l₂ ∧ e.publicId ≠ some x) :
      ((l.map fun e => e.news viewer range).flatMap notices).count (attackNotice x) = 0 := by
    rw [← count_messages]
    exact count_messages_of_forall_ne (fun e he => hid e (hl e he).1)
      (fun e he => hfits e (hl e he).1) fun e he => (hl e he).2
  have hbefore := hothers (l := l₁) fun e he =>
    ⟨List.mem_append_left _ he, hx ▸ hapart e he o List.mem_cons_self⟩
  have hafter := hothers (l := l₂) fun e he =>
    ⟨List.mem_append_right _ (List.mem_cons_of_mem _ he), fun heq =>
      (List.pairwise_cons.mp htail).1 e he (hx.trans heq.symm)⟩
  rw [count_messages, List.map_append, List.map_cons, List.flatMap_append, List.flatMap_cons,
    List.count_append, List.count_append, hbefore, hafter, Entity.count_notices hx (hfits o ho)]
  simp

end News

/-! ### When the players look around -/

namespace Region

variable {g : Region} {o p : Entity} {range : UInt16} {x : PublicId} {k : EntityId}

/-- A player is told of an attack once if another being has attacked that is in range of it. -/
theorem Sound.count_diff (hg : g.Sound) (hnamed : g.Named) (ho : o ∈ g.entities) (hp : p ∈ g.entities)
    (hbeing : o.isBeing = true) (hx : o.publicId = some x) :
    ((g.diff p range).toOption.getD []).count (attackNotice x) =
      if o.changes.attack = true ∧ p.id ≠ o.id ∧ o.position.inRange p.position range = true
      then 1 else 0 := by
  have hko := hg.placed.find?_of_mem ho
  have hkp := hg.placed.find?_of_mem hp
  have hself : o.publicId = p.publicId ↔ p.id = o.id := by
    constructor
    · exact fun heq => (hg.numbered.distinct hko hkp heq).symm
    · intro heq
      rw [heq, hko] at hkp
      rw [Option.some.inj hkp]
  have hseen : o.attackIsSeenBy p range = true ↔
      o.changes.attack = true ∧ p.id ≠ o.id ∧ o.position.inRange p.position range = true := by
    simp [Entity.attackIsSeenBy, Entity.isSeenBy, hself, and_assoc]
  have hid : ∀ e ∈ g.beingsConcerning p range, ∃ y, e.publicId = some y := fun e he =>
    hg.exists_publicId_of_concerning he
  have hfits : ∀ e ∈ g.beingsConcerning p range, e.kind.NameFits := fun e he =>
    hnamed _ _ (hg.find?_of_concerning he)
  rw [diff_eq_ok hfits]
  simp only [Except.toOption, Option.getD_some, ← hseen]
  by_cases hmem : o ∈ g.beingsConcerning p range
  · exact News.count_messages_of_mem hid hfits (hg.distinct_concerning p range) hmem hx
  · have hunseen : ¬ o.attackIsSeenBy p range = true := fun hattack => by
      obtain ⟨-, -, hnear⟩ := hseen.mp hattack
      exact hmem ((hg.indexed.mem_beingsConcerning_iff hg.placed).mpr
        ⟨ho, Scene.concerns_of_isSeenBy hbeing hnear⟩)
    rw [if_neg hunseen]
    refine News.count_messages_of_forall_ne hid hfits fun e he heq => hmem ?_
    rwa [hg.numbered.eq_of_publicId hko (hg.find?_of_concerning he) (hx.trans heq.symm)]

/-- A player of the map, other than the entity, is in range of it. -/
def Witnesses (g : Region) (o : Entity) (range : UInt16) (k : EntityId) : Prop :=
  ∃ p ∈ g.players, p.id = k ∧ k ≠ o.id ∧ o.position.inRange p.position range = true

/-- If a being has attacked, whoever witnesses it is told of it once. -/
theorem Sound.count_synchronize (hg : g.Sound) (hnamed : g.Named) (ho : o ∈ g.entities)
    (hbeing : o.isBeing = true) (hx : o.publicId = some x) (hattack : o.changes.attack = true)
    (hk : g.Witnesses o range k) :
    (messagesTo (g.synchronize range) k).count (attackNotice x) = 1 := by
  obtain ⟨p, hp, rfl, hne, hnear⟩ := hk
  obtain ⟨hmem, hplayer⟩ := mem_players_iff.mp hp
  rw [messagesTo_synchronize_eq hg.placed (hg.placed.find?_of_mem hmem) hplayer,
    hg.count_diff hnamed ho hmem hbeing hx, if_pos ⟨hattack, hne, hnear⟩]

/-- Nobody else is told of an attack, and nobody is told of one if there was none. -/
theorem Sound.count_synchronize_eq_zero (hg : g.Sound) (hnamed : g.Named) (ho : o ∈ g.entities)
    (hbeing : o.isBeing = true) (hx : o.publicId = some x)
    (h : ¬ (o.changes.attack = true ∧ g.Witnesses o range k)) :
    (messagesTo (g.synchronize range) k).count (attackNotice x) = 0 := by
  obtain hnil | ⟨p, hk, hplayer⟩ := messagesTo_synchronize_cases hg.placed range k
  · rw [hnil, List.count_nil]
  · obtain rfl := hg.placed.id_eq hk
    have hmem := mem_entities_of_find? hk
    rw [messagesTo_synchronize_eq hg.placed hk hplayer, hg.count_diff hnamed ho hmem hbeing hx,
      if_neg]
    rintro ⟨hattack, hne, hnear⟩
    exact h ⟨hattack, p, mem_players_iff.mpr ⟨hmem, hplayer⟩, rfl, hne, hnear⟩

end Region

/-! ### Runs -/

namespace World

variable {v w : World} {g : Region} {m : MapId} {past : List Incident} {config : WorldConfig}
  {atlas : Atlas}

/-- What is asked of a world in which all names are to fit. -/
def AllowsFitting (w : World) (c : Command) : Prop := w.Allows c ∧ w.Brings EntityKind.NameFits c

/-- When players look around in a run in which all names fit, all is well on their map, all names on
it fit, and they see as far as they did at the start. -/
theorem Unfolds.fitting (h : Unfolds AllowsFitting (empty config atlas) past v)
    (hg : v.region? m = some g) :
    (v.arranged g).Sound ∧ (v.arranged g).Named ∧ v.config = config := by
  have hdevelops : Develops { comes := EntityKind.NameFits } (empty config atlas) v := by
    refine h.develops (fun _ _ hc => develops_execute hc.1 hc.2) ?_ ?_ ?_
    all_goals exact fun _ => trivial
  have hv : v.Orderly := h.orderly (fun _ _ hc => hc.1) (orderly_empty config atlas)
  have hnamed : v.Named := (named_empty config atlas).develops (fun _ h => h) hdevelops
  refine ⟨sound_arranged (hv.region hg) v, named_arranged (hnamed.region hg) v, ?_⟩
  exact hdevelops.keeps (P := fun u => u.config = config) (fun h hu => h.config_eq.trans hu) rfl

/-- In a run in which all names fit, no attack is remembered after a tick. In the tick each map in use
has its turn once. When its players look around then, whoever has attacked since the last turn of the
map and has not left the map since is there, and of a being there that has attacked so each player in
range of it but itself is told once that it attacked. Nobody else is told that it attacked, and of a
being that has not attacked so nobody is told that it did. -/
theorem attacks_of_history (h : History AllowsFitting (empty config atlas) past w) :
    (∀ m k, ¬ Lately (Incident.Gives m k .attack) m k (past ++ w.incidents .tick)) ∧
    ∀ m, (w.region? m).isSome → ∃ before v g after,
      w.moments = before ++ .turn v g :: after ∧ g.id = m ∧
      (∀ i ∈ before ++ after, i.turned? ≠ some m) ∧
      (∀ report, (v.passRegion g report).2.outbox = v.outbox ++ (Moment.turn v g).news) ∧
      (∀ k, Lately (Incident.Gives m k .attack) m k (past ++ before.map .amid) →
        ∃ o ∈ (v.arranged g).entities, o.id = k) ∧
      ∀ o ∈ (v.arranged g).entities, o.isBeing = true → ∃ x, o.publicId = some x ∧ ∀ k,
        ((Lately (Incident.Gives m o.id .attack) m o.id (past ++ before.map .amid) ∧
            (v.arranged g).Witnesses o config.range k) →
          (messagesTo (Moment.turn v g).news k).count (attackNotice x) = 1) ∧
        (¬ (Lately (Incident.Gives m o.id .attack) m o.id (past ++ before.map .amid) ∧
            (v.arranged g).Witnesses o config.range k) →
          (messagesTo (Moment.turn v g).news k).count (attackNotice x) = 0) := by
  have hadmits : ∀ v c, AllowsFitting v c → v.Allows c := fun _ _ hc => hc.1
  have hw : w.Orderly := h.unfolds.orderly hadmits (orderly_empty config atlas)
  refine ⟨fun m k hlately => ?_, fun m hm => ?_⟩
  · obtain ⟨e, he, hmark⟩ := (h.unfolds.trans w.unfolds_tick).bears_iff_lately hadmits |>.mpr hlately
    obtain ⟨-, hlanded⟩ | ⟨-, hempty⟩ := hw.tick_changes he
    · rw [hlanded.changes] at hmark
      cases hmark
    · rw [hempty] at hmark
      cases hmark
  obtain ⟨before, v, g, after, hmoments, rfl, hothers, hg, hunfolds⟩ := h.exists_turn hadmits hm
  obtain ⟨hsound, hnamed, hconfig⟩ := hunfolds.fitting hg
  -- an entity bears the mark just when it has attacked and has not left since
  have hmarked (k : EntityId) :
      (∃ o, (v.arranged g).find? k = some o ∧ o.changes.attack = true) ↔
        Lately (Incident.Gives g.id k .attack) g.id k (past ++ before.map .amid) := by
    simpa [Mark.isIn] using hunfolds.marked_iff_lately .attack hadmits hg
  refine ⟨before, v, g, after, hmoments, rfl, hothers, fun report => ?_, fun k hlately => ?_,
    fun o ho hbeing => ?_⟩
  · rw [snd_passRegion]
    rfl
  · obtain ⟨o, hk, -⟩ := (hmarked k).mpr hlately
    exact ⟨o, Region.mem_entities_of_find? hk, hsound.placed.id_eq hk⟩
  · have hk := hsound.placed.find?_of_mem ho
    have hattack : o.changes.attack = true ↔
        Lately (Incident.Gives g.id o.id .attack) g.id o.id (past ++ before.map .amid) := by
      rw [← hmarked, hk]
      simp
    obtain ⟨x, hx, -⟩ := hsound.numbered.taken hk
    refine ⟨x, hx, fun k => ?_⟩
    rw [← hattack, Moment.news, hconfig]
    exact ⟨fun hseen => hsound.count_synchronize hnamed ho hbeing hx hseen.1 hseen.2,
      hsound.count_synchronize_eq_zero hnamed ho hbeing hx⟩

/-- Who looks around in a moment of a tick, and where. -/
def Moment.onlookers : Moment → List (EntityId × Point)
  | .turn v g => (v.arranged g).players.map fun p => (p.id, p.position)
  | .change _ _ => []

/-- Two characters have just come to the hamlet, and one of them has attacked twice. -/
def quarrel : World :=
  [.attack (.nth 2), .attack (.nth 2)].foldl execute
    ([.enter "Ann", .enter "Ben"].foldl execute (empty {} hamlet))

/-- The other one is told of it once. -/
theorem attacks_at_quarrel : ∃ v g, quarrel.moments = [.turn v g] ∧
    ∃ o ∈ (v.arranged g).entities, o.id = .nth 2 ∧ ∃ x, o.publicId = some x ∧
      (messagesTo (Moment.turn v g).news (.nth 1)).count (attackNotice x) = 1 ∧
      (messagesTo (Moment.turn v g).news (.nth 2)).count (attackNotice x) = 0 := by
  have hpair : Reaches execute AllowsFitting _ _ := reaches_pair.mono fun _ _ hc =>
    ⟨allows_of_admits hc.1, hc.2⟩
  obtain ⟨past, hpast⟩ := exists_history_iff.mpr hpair
  have hhistory := (hpast.step (.attack (.nth 2)) ⟨trivial, trivial⟩).step (.attack (.nth 2))
    ⟨trivial, trivial⟩
  obtain ⟨-, hturns⟩ := attacks_of_history (w := quarrel) hhistory
  obtain ⟨before, v, g, after, hmoments, -, -, -, -, hcount⟩ := hturns ⟨1⟩ (by cbv)
  have honlookers : quarrel.moments.map Moment.onlookers =
      [[(.nth 1, ⟨1600, 1600⟩), (.nth 2, ⟨1600, 1600⟩)]] := by cbv
  rw [hmoments, List.map_append, List.map_cons, List.append_eq_singleton_iff] at honlookers
  obtain ⟨hbefore, honlookers⟩ | ⟨-, hnot⟩ := honlookers
  · obtain rfl := List.map_eq_nil_iff.mp hbefore
    obtain ⟨hplayers, hafter⟩ := List.cons.inj honlookers
    obtain rfl := List.map_eq_nil_iff.mp hafter
    obtain ⟨p, hp, hann⟩ := List.mem_map.mp (hplayers ▸ List.mem_cons_self)
    obtain ⟨o, ho, hben⟩ := List.mem_map.mp (hplayers ▸ List.mem_cons_of_mem _ List.mem_cons_self)
    obtain ⟨hann, hplace⟩ := Prod.mk.inj hann
    obtain ⟨hben, hplace'⟩ := Prod.mk.inj hben
    obtain ⟨hmem, hplayer⟩ := Region.mem_players_iff.mp ho
    obtain ⟨x, hx, hcount⟩ := hcount o hmem (Entity.isBeing_of_isPlayer hplayer)
    refine ⟨v, g, hmoments, o, hmem, hben, x, hx, (hcount _).1 ⟨?_, p, hp, hann, ?_, ?_⟩,
      (hcount _).2 ?_⟩
    · rw [List.map_nil, List.append_nil, hben]
      exact lately_append_singleton.mpr (.inl (.attack (by cbv)))
    · rw [hben]
      decide
    · rw [hplace, hplace']
      decide
    · rintro ⟨-, q, -, -, hne, -⟩
      exact hne hben.symm
  · cases hnot

end World

end TileWorld
