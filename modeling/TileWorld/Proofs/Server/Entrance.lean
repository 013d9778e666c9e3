import TileWorld.Proofs.Server.Commands
import TileWorld.Proofs.Server.Interleaving
import TileWorld.Proofs.World.Relocation
import TileWorld.Proofs.World.Room

/-!
# Being let in

A client that asks for a character gets one answer, before anything else. Whether the character can
come in depends on three things alone: that its map exists, that the place where it is to stand lies
on it, and that a public id is left there (`World.HasRoom`). The answer says whether they hold, and if
they do it says under which public id the character is there (`Server.entrance_of_becomes`).
-/

namespace TileWorld

namespace World

variable {w : World}

/-- The character that enters under a name. -/
def newcomer (w : World) (name : String) : Entity :=
  .player (.nth (w.issued + 1)) (w.characterOf name).looks (w.characterOf name).map
    (w.characterOf name).position

/-- A character that asks to enter comes exactly if there is room for it. -/
theorem Sound.enter_cases (hw : w.Sound) (hkept : w.Upkept w.atlas)
    (hlt : w.issued + 1 < UInt32.size) (name : String) :
    ∃ w', ConfinedTo (· = (w.newcomer name).map) (fun _ _ => False) w w' ∧ w'.outbox = w.outbox ∧
      ((w.HasRoom (w.newcomer name).map (w.newcomer name).position ∧ ∃ x g g',
          w'.Comes (w.newcomer name) x g g' ∧
          w.enter name = (.ok ((w.newcomer name).id, x), w'.welcome (w.newcomer name) g') ∧
          w.Unclaimed (w.newcomer name).map x ∧
          ∀ y, w.Unclaimed (w.newcomer name).map y → x.val ≤ y.val) ∨
        (¬ w.HasRoom (w.newcomer name).map (w.newcomer name).position ∧
          ∃ err, w.enter name = (.error err, w'))) := by
  have hmap : w.mapOf (w.newcomer name).id = none := hw.mapOf_nth hlt
  have hgone (o : Entity) : ¬ w.Finds (w.newcomer name).map (w.newcomer name).id o := by
    rintro ⟨g, hg, ho⟩
    have hlocated := hw.located.mpr ⟨g, o, hg, ho⟩
    rw [hmap] at hlocated
    cases hlocated
  have henter : w.enter name =
      ((w.allocateId.2.add (w.newcomer name)).1.map fun x => ((w.newcomer name).id, x),
        (w.allocateId.2.add (w.newcomer name)).2) := rfl
  have hfirst : ConfinedTo (· = (w.newcomer name).map) (fun _ _ => False) w w.allocateId.2 :=
    confinedTo_of_eq _ _ ⟨rfl, rfl, rfl, rfl, rfl⟩ rfl rfl
  have hkept' : w.allocateId.2.Upkept w.allocateId.2.atlas := hkept.congr rfl
  obtain ⟨w', hconfined, hsaid, ⟨hroom, x, g, g', hcomes, hadd, hx⟩ | ⟨hfull, err, hadd⟩⟩ :=
    hkept'.add_cases hmap hgone rfl
  · refine ⟨w', hfirst.trans hconfined, hsaid, .inl ⟨hroom, x, g, g', hcomes, ?_, hx⟩⟩
    rw [henter, hadd]
    rfl
  · refine ⟨w', hfirst.trans hconfined, hsaid, .inr ⟨hfull, err, ?_⟩⟩
    rw [henter, hadd]
    rfl

end World

namespace Server

open World

variable {config : WorldConfig} {atlas : Atlas} {s : Server} {c : ConnectionId} {name : String}
  {bytes : Bytes}

/-! ### The answer -/

/-- What a client gets, and what the server is after that, when a character is let in for it. -/
structure LetsIn (s : Server) (c : ConnectionId) (record : CharacterRecord) (id : EntityId)
    (x : PublicId) (sent : List SentFrame) (s' : Server) : Prop where
  /-- The identity was never given out before. -/
  new : ¬ s.world.Issued id
  /-- The client controls the character, and other clients control what they did. -/
  entityOf : ∀ c', s'.sessions.entityOf c' = if c' = c then some id else s.sessions.entityOf c'
  /-- The character is where it is to stand, and all others are where they were. -/
  finds : ∀ m k o, s'.world.Finds m k o ↔ s.world.Finds m k o ∨ (m = record.map ∧ k = id ∧
    o = (Entity.player id record.looks record.map record.position).arrived x)
  /-- Nobody on the map had the public id, and every lower one is taken. -/
  lowest : s.world.Unclaimed record.map x ∧ ∀ y, s.world.Unclaimed record.map y → x.val ≤ y.val
  /-- The answer bears the public id. What else goes out is where the character is, if the name of the
  map can be written. -/
  sent : sent =
    ⟨c, Message.bytes ⟨Opcode.enterReply, EnterStatus.accepted.code :: Field.ofShort x.val⟩⟩ ::
      if Field.Fits (s.world.mapTitle record.map) then
        [⟨c, Message.bytes ⟨Opcode.mapChange, Field.textBytes (s.world.mapTitle record.map) ++
          (Field.ofCoordinates record.position.x record.position.y ++ [0])⟩⟩]
      else []

/-- What a client gets, and what the server is after that, when it is turned away. -/
structure TurnsAway (s : Server) (c : ConnectionId) (sent : List SentFrame) (s' : Server) : Prop where
  /-- Clients control what they did. -/
  sessions : s'.sessions = s.sessions
  /-- Nobody has come, and nobody has gone. -/
  finds : ∀ m k o, s'.world.Finds m k o ↔ s.world.Finds m k o
  /-- Nothing goes out but the answer. -/
  sent : sent =
    [⟨c, Message.bytes ⟨Opcode.enterReply, EnterStatus.unknown.code :: Field.ofShort 0xFFFF⟩⟩]

/-- Whatever comes to a server, its maps last, and it keeps to what was set about its world. -/
theorem upkept_of_becomes {w₀ : World}
    (h₀ : Reaches World.execute World.Allows (.empty config atlas) w₀)
    (h : Becomes { world := w₀ } s) :
    s.world.Upkept atlas ∧ s.world.atlas = atlas ∧ s.world.config = config := by
  have hdevelops {w w' : World} (hdev : Develops {} w w')
      (hw : w.Upkept atlas ∧ w.atlas = atlas ∧ w.config = config) :
      w'.Upkept atlas ∧ w'.atlas = atlas ∧ w'.config = config := by
    obtain ⟨hkept, hatlas⟩ := hw.1.develops hw.2.1 hdev
    exact ⟨hkept, hatlas,
      hdev.keeps (P := fun v => v.config = config) (fun h hv => h.config_eq.trans hv) hw.2.2⟩
  have hinit := hdevelops (develops_of_allows h₀) ⟨upkept_empty config atlas, rfl, rfl⟩
  refine h.invariant
    (P := fun v => v.world.Upkept atlas ∧ v.world.atlas = atlas ∧ v.world.config = config)
    hinit fun v event hv _ => ?_
  refine keeps_handle
    (P := fun w => w.Upkept atlas ∧ w.atlas = atlas ∧ w.config = config)
    (fun w k hk hw => ?_) (fun _ _ hw => hw) hv
  have hallows : w.Allows k := by cases hk <;> exact trivial
  exact hdevelops hallows.develops hw

/-- If nobody is lost then what goes out is the queue. -/
theorem flush_of_lost (h : s.world.lost = []) : s.flush =
    (s.sessions.deliver s.world.outbox, { s with world := { s.world with outbox := [] } }) := by
  obtain ⟨⟨config, atlas, regions, locations, outbox, deferred, issued, ticks, lost, calls⟩,
    sessions⟩ := s
  obtain rfl : lost = [] := h
  rfl

/-- A character that comes is told where it is. -/
theorem deliver_arrivals {r : Registry} {w : World} {e : Entity} (hplayer : e.isPlayer = true)
    (hc : r.connectionOf e.id = some c) (hopen : r.accepts c = true) :
    r.deliver (w.arrivals e) = if Field.Fits (w.mapTitle e.map) then
      [⟨c, Message.bytes ⟨Opcode.mapChange, Field.textBytes (w.mapTitle e.map) ++
        (Field.ofCoordinates e.position.x e.position.y ++ [0])⟩⟩]
    else [] := by
  rw [arrivals_eq_ite]
  by_cases hfits : Field.Fits (w.mapTitle e.map)
  · simp [hplayer, hfits, Registry.deliver, hc, Registry.send, hopen]
  · simp [hfits, Registry.deliver]

/-- When the character has come and belongs to the client, the client is told so, and then where the
character is. -/
theorem Settled.letsIn (hs : s.Settled) (hnew : ¬ s.world.Issued (s.world.newcomer name).id)
    {M : MapId → Prop} {w : World} (hconfined : ConfinedTo M (fun _ _ => False) s.world w)
    (hsaid : w.outbox = s.world.outbox) {x : PublicId} {g g' : Region}
    (hcomes : w.Comes (s.world.newcomer name) x g g')
    (hx : s.world.Unclaimed (s.world.newcomer name).map x ∧
      ∀ y, s.world.Unclaimed (s.world.newcomer name).map y → x.val ≤ y.val)
    {r : Registry} (hr : r.Consistent) (hbind : s.sessions.bind c (s.world.newcomer name).id = .ok r)
    (hopen : s.sessions.accepts c = true) :
    let s' : Server := ⟨w.welcome (s.world.newcomer name) g', r⟩
    s.LetsIn c (s.world.characterOf name) (s.world.newcomer name).id x
      (r.send c (enterReply EnterStatus.accepted.code (some x)).bytes ++ s'.flush.1) s'.flush.2 := by
  intro s'
  have hlost : s'.world.lost = [] := hconfined.rest.lost.trans hs.lost
  have hqueue : s'.world.outbox = w.arrivals (s.world.newcomer name) := by
    show w.outbox ++ w.arrivals (s.world.newcomer name) = _
    rw [hsaid, hs.outbox, List.nil_append]
  have htitle (m : MapId) : w.mapTitle m = s.world.mapTitle m := by
    rw [mapTitle, hconfined.rest.atlas, mapTitle]
  have hsends (frame : Bytes) : r.send c frame = [⟨c, frame⟩] := by
    rw [send_bind hbind, Registry.send, if_pos hopen]
  have hopen' : r.accepts c = true := by
    by_contra hclosed
    simpa [Registry.send, hclosed] using hsends []
  have hcontrols : r.connectionOf (s.world.newcomer name).id = some c := by
    rw [hr, Registry.entityOf_bind hbind, if_pos rfl]
  have harrives := deliver_arrivals (w := w) (e := s.world.newcomer name) rfl hcontrols hopen'
  rw [htitle] at harrives
  rw [flush_of_lost hlost, hqueue]
  refine ⟨hnew, Registry.entityOf_bind hbind, fun m k o => ?_, hx, ?_⟩
  · have hfinds : s'.world.Finds m k o ↔ _ := finds_welcome_iff hcomes
    rw [hconfined.finds m k o id] at hfinds
    exact hfinds
  · rw [hsends]
    exact congrArg (_ :: ·) harrives

/-- Who controls nobody is let in exactly if there is room for its character. -/
theorem Settled.handleFrame_enter (hsettled : s.Settled) (hs : s.Steady)
    (hkept : s.world.Upkept s.world.atlas) (hlt : s.world.issued + 1 < UInt32.size)
    (hopen : s.sessions.accepts c = true) (hfree : s.sessions.entityOf c = none)
    (hbytes : Request.decode bytes = .ok (.enter name)) :
    let record := s.world.characterOf name
    (s.world.HasRoom record.map record.position ∧
      ∃ id x, s.LetsIn c record id x (s.handleFrame c bytes).1 (s.handleFrame c bytes).2) ∨
    (¬ s.world.HasRoom record.map record.position ∧
      s.TurnsAway c (s.handleFrame c bytes).1 (s.handleFrame c bytes).2) := by
  intro record
  have hsend (frame : Bytes) : s.sessions.send c frame = [⟨c, frame⟩] := by
    rw [Registry.send, if_pos hopen]
  have hframe : s.handleFrame c bytes =
      ((s.enter c name).2.sessions.send c (s.enter c name).1.bytes ++ (s.enter c name).2.flush.1,
        (s.enter c name).2.flush.2) := by
    rw [handleFrame, hbytes]
  rw [hframe]
  obtain ⟨w, hconfined, hsaid, ⟨hroom, x, g, g', hcomes, henter, hx⟩ | ⟨hfull, err, henter⟩⟩ :=
    hs.sound.enter_cases hkept hlt name
  · have hnew : ¬ s.world.Issued (s.world.newcomer name).id := not_issued_nth hlt
    have hconnected : s.sessions.sessions[c]?.isSome := by
      rw [Registry.accepts] at hopen
      rcases hsession : s.sessions.sessions[c]? with _ | session
      · simp [hsession] at hopen
      · rfl
    obtain ⟨r, hbind⟩ := exists_bind hs hconnected hfree hnew
    have haccepted : s.enter c name = (enterReply EnterStatus.accepted.code (some x),
        ⟨w.welcome (s.world.newcomer name) g', r⟩) := by
      simp only [enter, hfree, henter, hbind, Option.isSome_none, Bool.false_eq_true, if_false]
    refine .inl ⟨hroom, (s.world.newcomer name).id, x, ?_⟩
    rw [haccepted]
    exact hsettled.letsIn hnew hconfined hsaid hcomes hx (hs.consistent.bind hbind) hbind hopen
  · have hrefused : s.enter c name = (enterReply EnterStatus.unknown.code none, { s with world := w }) := by
      simp only [enter, hfree, henter, Option.isSome_none, Bool.false_eq_true, if_false]
    have hsettled' : ({ s with world := w } : Server).Settled :=
      ⟨hsaid.trans hsettled.outbox, hconfined.rest.lost.trans hsettled.lost⟩
    refine .inr ⟨hfull, ?_⟩
    rw [hrefused, flush_of_settled hsettled', hsend]
    exact ⟨rfl, fun m k o => hconfined.finds m k o id, rfl⟩

/-- Whoever is let in is not turned away. -/
theorem LetsIn.not_turnsAway {record : CharacterRecord} {id : EntityId} {x : PublicId}
    {sent sent' : List SentFrame} {s' : Server} (h : s.LetsIn c record id x sent s')
    (hfree : s.sessions.entityOf c = none) : ¬ s.TurnsAway c sent' s' := by
  intro h'
  have hc := h.entityOf c
  rw [h'.sessions, hfree, if_pos rfl] at hc
  cases hc

/-- Whoever is connected and asks for a character is answered before it hears anything else, and is
answered once. If it has a character already, that is what it is told, and nothing has changed. If not,
it is let in exactly if the map of the character exists, has the place where the character is to stand,
and has a public id left, where a character of which nothing is known begins at the start of the world;
and then it gets a new character there. Otherwise it is told that it cannot have the character, and it
has none, and nobody has come. -/
theorem entrance_of_becomes {w₀ : World}
    (h₀ : Reaches World.execute World.Allows (.empty config atlas) w₀) (houtbox : w₀.outbox = [])
    (hlost : w₀.lost = []) (h : Becomes { world := w₀ } s)
    (hlt : s.world.issued + 1 < UInt32.size) (hopen : s.sessions.accepts c = true)
    (hbytes : Request.decode bytes = .ok (.enter name)) :
    let record := (atlas.character name).getD
      { looks := { name }, map := config.startMap, position := config.startPosition }
    (∀ id, s.sessions.entityOf c = some id → s.handleFrame c bytes =
      ([⟨c, Message.bytes
        ⟨Opcode.enterReply, EnterStatus.alreadyIn.code :: Field.ofShort 0xFFFF⟩⟩], s)) ∧
    (s.sessions.entityOf c = none →
      (s.world.HasRoom record.map record.position ↔
        ∃ id x, s.LetsIn c record id x (s.handleFrame c bytes).1 (s.handleFrame c bytes).2) ∧
      (¬ s.world.HasRoom record.map record.position ↔
        s.TurnsAway c (s.handleFrame c bytes).1 (s.handleFrame c bytes).2)) := by
  intro record
  obtain ⟨hkept, hatlas, hconfig⟩ := upkept_of_becomes h₀ h
  have hsettled : s.Settled := Settled.becomes ⟨houtbox, hlost⟩ h
  refine ⟨fun id hid => ?_, fun hfree => ?_⟩
  · have hframe : s.handleFrame c bytes = (s.sessions.send c
        (enterReply EnterStatus.alreadyIn.code none).bytes ++ s.flush.1, s.flush.2) := by
      rw [handleFrame, hbytes]
      simp only [enter_of_entityOf hid]
    rw [hframe, flush_of_settled hsettled, Registry.send, if_pos hopen]
    rfl
  · have hrecord : s.world.characterOf name = record := by rw [characterOf, hatlas, hconfig]
    have hsteady := steady_of_becomes h₀ h (Nat.lt_of_succ_lt hlt)
    have hanswer := hsettled.handleFrame_enter hsteady (hatlas ▸ hkept) hlt hopen hfree hbytes
    rw [hrecord] at hanswer
    obtain ⟨hroom, id, x, hin⟩ | ⟨hfull, haway⟩ := hanswer
    · exact ⟨⟨fun _ => ⟨id, x, hin⟩, fun _ => hroom⟩,
        ⟨fun hno => absurd hroom hno, fun haway => absurd haway (hin.not_turnsAway hfree)⟩⟩
    · refine ⟨⟨fun hroom => absurd hroom hfull, fun hlets => ?_⟩, ⟨fun _ => haway, fun _ => hfull⟩⟩
      obtain ⟨id, x, hin⟩ := hlets
      exact absurd haway (hin.not_turnsAway hfree)

/-! ### An example -/

/-- A client is connected, and nobody is in the world. -/
def porch : Server := (fresh {} hamlet).connect (home 1)

/-- A client that asks for Ann gets her, and one that has her is told so when it asks for Eve. -/
theorem entrance_at_porch :
    (∃ id x, porch.LetsIn (home 1)
      { looks := { name := "Ann" }, map := ⟨1⟩, position := ⟨1600, 1600⟩ } id x
      (porch.handleFrame (home 1) (entering "Ann")).1
      (porch.handleFrame (home 1) (entering "Ann")).2) ∧
    visit.handleFrame (home 1) (entering "Eve") =
      ([⟨home 1, Message.bytes
        ⟨Opcode.enterReply, EnterStatus.alreadyIn.code :: Field.ofShort 0xFFFF⟩⟩], visit) := by
  have hconnect : (fresh {} hamlet).Admits (.connect (home 1)) := by simp [Admits, fresh]
  have hporch : Becomes (fresh {} hamlet) porch := Reaches.refl.step _ hconnect
  have hfacts : (porch.world.issued, porch.sessions.accepts (home 1),
      porch.sessions.entityOf (home 1), porch.world.region? ⟨1⟩) = (0, true, none, none) := by cbv
  have hfacts' : (visit.world.issued, visit.sessions.accepts (home 1),
      visit.sessions.entityOf (home 1)) = (2, true, some (.nth 1)) := by cbv
  simp only [Prod.mk.injEq] at hfacts hfacts'
  obtain ⟨hissued, hopen, hfree, hunused⟩ := hfacts
  obtain ⟨hissued', hopen', hann⟩ := hfacts'
  have hroom : porch.world.HasRoom ⟨1⟩ ⟨1600, 1600⟩ := by
    refine ⟨⟨.clear 120 120, []⟩, rfl, by decide, ⟨0⟩, by decide, fun k o ho => ?_⟩
    obtain ⟨g, hg, -⟩ := ho
    rw [hunused] at hg
    cases hg
  have hask : Request.decode (entering "Ann") = .ok (.enter "Ann") := by cbv
  have hask' : Request.decode (entering "Eve") = .ok (.enter "Eve") := by cbv
  have hfirst := entrance_of_becomes .refl rfl rfl hporch (by rw [hissued]; decide) hopen hask
  have hagain :=
    entrance_of_becomes .refl rfl rfl becomes_visit (by rw [hissued']; decide) hopen' hask'
  exact ⟨(hfirst.2 hfree).1.mp hroom, hagain.1 _ hann⟩

end Server

end TileWorld
