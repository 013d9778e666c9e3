import TileWorld.Proofs.Client.Expectation
import TileWorld.Proofs.World.Hooks
import TileWorld.Proofs.World.View

/-!
# Who is spoken of to whom

A player can make sense of what it is told, message by message: everybody of whom it hears has been
brought into its view and has not gone out of it. Two things are done with less care. That somebody
attacked is told before anything else about it, so that the attack of a being that is just coming
into view is told one message too early. And whoever leaves is taken leave of by all players in
range, even by those who have not met it, because it or the player is new on the map. Whatever has
happened in a run, there is nothing else: `World.follows_of_history`.

What a player is told in one incident is all that it can make sense of, or it is one farewell
(`World.Happens.keepsUp_cases`). Which incident it was that a farewell came from can then be read off
the history of the run.
-/

namespace TileWorld

open Delivery Outlook

/-- Of nobody is spoken in some messages, so that all clients can make sense of them. -/
theorem Scene.follows_of_decode {s : Scene} {m : Message} {n : Notification} {after : List Message}
    (hn : Notification.decode m.bytes = .ok n) (h : ∀ s : Scene, s.Expects n) : s.Follows m after :=
  ⟨n, hn, .inl (h s)⟩

namespace World

variable {config : WorldConfig} {atlas : Atlas} {u v v' w w' w'' : World} {k id : EntityId}
  {e : Entity} {x : PublicId} {cause : RemovalCause} {i : Incident} {past later : List Incident}

/-! ### What a player can make sense of -/

/-- A player can make sense of everything that it is told between two worlds. -/
def KeepsUp (k : EntityId) (w w' : World) : Prop :=
  ∃ ms, w'.messagesFor k = w.messagesFor k ++ ms ∧
    Throughout (fun before m after => (before.foldl Scene.receive (w.scene k)).Follows m after) ms

/-- Of most changes nothing is said at once. -/
theorem keepsUp_of_messagesFor_eq (h : w'.messagesFor k = w.messagesFor k) : KeepsUp k w w' :=
  ⟨[], by rw [h, List.append_nil], throughout_nil⟩

theorem KeepsUp.trans (h : KeepsUp k w w') (h' : KeepsUp k w' w'') : KeepsUp k w w'' := by
  obtain ⟨ms, hms, hfollows⟩ := h
  obtain ⟨ms', hms', hfollows'⟩ := h'
  -- the second messages come to a player that has got the first
  have hscene : w'.scene k = ms.foldl Scene.receive (w.scene k) := by
    rw [scene, hms, Scene.ofMessages, List.foldl_append]
    rfl
  refine ⟨ms ++ ms', by rw [hms', hms, List.append_assoc], throughout_append ?_ ?_⟩
  · exact hfollows.imp fun {before m after} h => h.append ms'
  · refine hfollows'.imp fun {before m after} h => ?_
    rwa [List.foldl_append, ← hscene]

/-- All players can make sense of messages that speak of nobody. -/
theorem keepsUp_of_outbox {ds : List Delivery} (h : w'.outbox = w.outbox ++ ds)
    (hds : ∀ d ∈ ds, ∀ (s : Scene) after, s.Follows d.message after) : KeepsUp k w w' := by
  refine ⟨_, messagesFor_append h k, throughout_of_forall_mem fun m hm before after => ?_⟩
  obtain ⟨d, hd, rfl⟩ := List.mem_map.mp hm
  exact hds d (List.mem_filter.mp hd).1 _ after

theorem keepsUp_activate {map : MapId} {g : Region} (h : w.activate map = .ok (g, w')) :
    KeepsUp k w w' :=
  keepsUp_of_messagesFor_eq (by rw [messagesFor, messagesFor, outbox_activate h])

/-- The message to a player that comes speaks of nobody. -/
theorem keepsUp_welcome (w : World) (e : Entity) (g : Region) : KeepsUp k w (w.welcome e g) := by
  refine keepsUp_of_outbox rfl fun d hd s after => ?_
  rw [arrivals] at hd
  split at hd
  · split at hd
    · rename_i message hmessage
      rw [List.mem_singleton.mp hd]
      exact Scene.follows_of_decode (Notification.decode_mapNotice hmessage) fun _ => trivial
    · cases hd
  · cases hd

/-- Speech speaks of nobody. -/
theorem keepsUp_post {speaker : Option PublicId} {text : String} {m : Message}
    (h : chatNotice speaker text = .ok m) (ids : List EntityId) :
    KeepsUp k w (w.post (toAll ids m)) := by
  refine keepsUp_of_outbox rfl fun d hd s after => ?_
  obtain ⟨id, -, rfl⟩ := List.mem_map.mp hd
  exact Scene.follows_of_decode (Notification.decode_chatNotice h) fun _ => trivial

/-- A player can make sense of all the news of a tick. -/
theorem Informed.keepsUp_turn (hw : w.Informed) (hsound : w.Sound) {map : MapId} {g : Region}
    (hg : w.region? map = some g) (report : TickReport)
    (hlt : (w.passRegion g report).2.issued < UInt32.size) (k : EntityId) :
    KeepsUp k w (w.passRegion g report).2 := by
  have hready := hw.ready_worked hg
  obtain ⟨fixtures, heq⟩ := w.passRegion_eq g report
  rw [heq] at hlt ⊢
  have hregion := hsound.fitted_worked hg hlt fixtures
  refine ⟨_, messagesFor_append rfl k, ?_⟩
  obtain hnil | ⟨p, hk, hplayer⟩ :=
    Region.messagesTo_synchronize_cases hregion.placed w.config.range k
  · rw [hnil]
    exact throughout_nil
  · obtain rfl : p.id = k := hregion.placed.id_eq hk
    have hscene : (w.scene p.id).Agrees ((w.worked g).region.fitted fixtures)
        (before p w.config.range) :=
      let hs := hready.scenes hk hplayer
      ⟨hs.shown, hs.hidden⟩
    obtain ⟨ms, hms, hfollows⟩ := hscene.follows_diff hregion hready.names
    rw [Region.messagesTo_synchronize hregion.placed hk hplayer hms]
    exact hfollows

/-! ### Strangers -/

/-- A player is in range of another being on its map, and one of the two is new there. -/
def Unmet (w : World) (k id : EntityId) (x : PublicId) : Prop :=
  k ≠ id ∧ ∃ map o p, w.Finds map id o ∧ o.isBeing = true ∧ o.publicId = some x ∧
    w.Finds map k p ∧ p.isPlayer = true ∧ o.position.inRange p.position w.config.range = true ∧
      (o.changes.newOnMap = true ∨ p.changes.newOnMap = true)

/-- Whoever leaves was in view, or has not been met, and then its farewell is all that is said. -/
theorem Informed.keepsUp_remove (hw : w.Informed) (hsound : w.Sound)
    (h : w.remove id cause = some (e, w')) (k : EntityId) : KeepsUp k w w' ∨
      ∃ x, w.Unmet k id x ∧ w'.messagesFor k = w.messagesFor k ++ [leaveNotice x] := by
  obtain ⟨map, g, leaving, g', -, hg, hleaving, -, heq⟩ := remove_eq_some_iff.mp h
  have hout : w'.outbox = w.outbox ++ w.farewells g leaving := by rw [heq]
  have hmessages := messagesFor_append hout k
  obtain hnil | ⟨p, x, hne, hk, hplayer, hbeing, hx, hnear, hfarewell⟩ :=
    messagesTo_farewells_cases (w := w) (hsound.region hg).2 hleaving k
  · rw [hnil, List.append_nil] at hmessages
    exact .inl (keepsUp_of_messagesFor_eq hmessages)
  · rw [hfarewell] at hmessages
    by_cases hmet : p.changes.newOnMap = false ∧ leaving.changes.newOnMap = false
    · have hid : p.id = k := (hsound.region hg).2.placed.id_eq hk
      obtain ⟨b, hb, -⟩ :=
        (hw.scenes hg hk hplayer).shown hleaving hbeing hx ⟨hmet.1, hmet.2, hnear⟩
      rw [hid] at hb
      refine .inl ⟨_, hmessages, throughout_singleton ?_⟩
      refine ⟨_, Notification.decode_leaveNotice x, .inl ?_⟩
      exact Std.ExtTreeMap.mem_iff_isSome_getElem?.mpr (Option.isSome_of_eq_some hb)
    · rw [Classical.not_and_iff_not_or_not, Bool.not_eq_false, Bool.not_eq_false, or_comm] at hmet
      exact .inr ⟨x, ⟨hne, map, leaving, p, ⟨g, hg, hleaving⟩, hbeing, hx, ⟨g, hg, hk⟩, hplayer,
        hnear, hmet⟩, hmessages⟩

/-- Who has not met whom does not depend on which maps are in use. -/
theorem unmet_activate_iff {map : MapId} {g : Region} (h : w.activate map = .ok (g, w')) :
    w'.Unmet k id x ↔ w.Unmet k id x := by
  simp only [Unmet, finds_activate_iff h, (frame_activate h).config]

/-! ### What is said in one incident -/

/-- Nobody leaves when nobody is asked to. -/
theorem keepsUp_execute {c : Command} (hne : c ≠ .tick)
    (hnow : Incident.change? (.asked w c) = none) : KeepsUp k w (w.execute c) := by
  have hsame {w' : World} (h : w'.outbox = w.outbox) : KeepsUp k w w' :=
    keepsUp_of_messagesFor_eq (by rw [messagesFor, messagesFor, h])
  cases c with
  | remove | warp => cases hnow
  | tick => exact absurd rfl hne
  | allocate | queueRemoval => exact hsame rfl
  | activate map =>
    rw [execute]
    rcases h : w.activate map with err | ⟨g, w'⟩
    · exact hsame rfl
    · exact keepsUp_activate h
  | add e =>
    rw [execute]
    obtain ⟨err, h⟩ | ⟨-, g, w₁, hact, ⟨err, h⟩ | ⟨x, g', -, h⟩⟩ := w.add_cases e <;> rw [h]
    · exact hsame rfl
    · exact keepsUp_activate hact
    · exact (keepsUp_activate hact).trans (keepsUp_welcome ..)
  | enter name =>
    rw [execute]
    obtain ⟨w₁, hopens, hends⟩ := w.enter_steps name
    have hfirst : KeepsUp k w w₁ := by
      obtain rfl | ⟨g, hact⟩ := hopens
      · exact hsame rfl
      · exact hsame (outbox_activate hact :)
    obtain ⟨err, h⟩ | ⟨e, x, g, g', -, -, -, -, -, h⟩ := hends <;> rw [h]
    · exact hfirst
    · exact hfirst.trans (keepsUp_welcome ..)
  | walk id p =>
    rw [execute]
    rcases h : w.setDestination id p with err | w'
    · exact hsame rfl
    · obtain ⟨map, g, -, rfl⟩ := exists_of_setDestination h
      exact hsame rfl
  | attack id =>
    rw [execute]
    rcases h : w.attack id with err | w'
    · exact hsame rfl
    · obtain ⟨map, g, -, rfl⟩ := exists_of_attack h
      exact hsame rfl
  | say id text =>
    rw [execute]
    rcases h : w.say id text with err | ⟨n, w'⟩
    · exact hsame rfl
    · obtain ⟨speaker, m, ids, hm, rfl⟩ := exists_of_say h
      exact keepsUp_post hm ids
  | announce map center text =>
    rw [execute]
    rcases h : w.announce map center text with err | ⟨n, w'⟩
    · exact hsame rfl
    · obtain ⟨speaker, m, ids, hm, rfl⟩ := exists_of_announce h
      exact keepsUp_post hm ids

/-- Whoever goes to another place is taken leave of where it was. -/
theorem Informed.keepsUp_applyOne (hw : w.Informed) (hsound : w.Sound)
    (hlt : w.issued < UInt32.size) (d : Deferred) (k : EntityId) :
    KeepsUp k w (w.applyOne d).2 ∨ ∃ e cause x, w.exit? d = some (e, cause) ∧ w.Unmet k e.id x ∧
      (w.applyOne d).2.messagesFor k = w.messagesFor k ++ [leaveNotice x] := by
  cases d with
  | remove id cause =>
    rw [applyOne, exit?]
    rcases hrem : w.remove id cause with _ | ⟨e, w'⟩
    · exact .inl (keepsUp_of_messagesFor_eq rfl)
    · obtain hkeeps | ⟨x, hunmet, hmessages⟩ := hw.keepsUp_remove hsound hrem k
      · exact .inl hkeeps
      · rw [← hsound.orderly.id_of_remove hrem] at hunmet
        exact .inr ⟨e, cause, x, rfl, hunmet, hmessages⟩
  | warp id map p =>
    rw [snd_applyOne_warp]
    obtain ⟨-, err, w', hwarp, hw'⟩ | ⟨g, w₁, e, w₂, hexit, hact, hrem, hends⟩ :=
      hsound.orderly.exit?_warp_cases id map p
    · rw [hwarp]
      obtain rfl | ⟨g, hact⟩ := hw'
      · exact .inl (keepsUp_of_messagesFor_eq rfl)
      · exact .inl (keepsUp_activate hact)
    have hsound₁ : w₁.Sound := hsound.activate hlt hact
    have hinformed₁ : w₁.Informed := by
      obtain ⟨-, rfl⟩ | ⟨-, plan, -, rfl, -⟩ := activate_eq_ok_iff.mp hact
      · exact hw
      · exact hw.opens map plan
    have hid : e.id = id := hsound₁.orderly.id_of_remove hrem
    obtain hkeeps | ⟨x, hunmet, hmessages⟩ := hinformed₁.keepsUp_remove hsound₁ hrem k
    · have hleft : KeepsUp k w w₂ := (keepsUp_activate hact).trans hkeeps
      obtain ⟨err, hwarp⟩ | ⟨x, g₂, g', -, hwarp⟩ := hends <;> rw [hwarp]
      · refine .inl (hleft.trans (keepsUp_of_messagesFor_eq ?_))
        rcases e.isPlayer <;> rfl
      · exact .inl (hleft.trans (keepsUp_welcome ..))
    · -- whoever takes leave stays, so that it is not told of an arrival
      have hsaid : (w.warp id map p).2.messagesFor k = w₂.messagesFor k := by
        obtain ⟨err, hwarp⟩ | ⟨x', g₂, g', -, hwarp⟩ := hends <;> rw [hwarp]
        · rcases e.isPlayer <;> rfl
        · refine (messagesFor_append rfl k).trans ?_
          rw [messagesTo_eq_nil, List.append_nil]
          intro d hd heq
          exact hunmet.1 (heq.symm.trans ((recipient_of_mem_arrivals hd).trans hid))
      refine .inr ⟨e, .warp, x, hexit, ?_, ?_⟩
      · rwa [hid, ← unmet_activate_iff hact]
      · rw [hsaid, hmessages, messagesFor, messagesFor, outbox_activate hact]

/-- A player can make sense of all that it is told in an incident, or somebody leaves its map in the
incident whom it has not met, and that is all that it is told. -/
theorem Happens.keepsUp_cases {admits : World → Command → Prop} (h : Happens admits i v v')
    (hsound : v.Sound) (hinformed : v.Informed) (hle : v.issued ≤ v'.issued)
    (hlt : v'.issued < UInt32.size) (k : EntityId) : KeepsUp k v v' ∨
      ∃ e cause x, i.exit? = some (e, cause) ∧ v.Unmet k e.id x ∧
        v'.messagesFor k = v.messagesFor k ++ [leaveNotice x] := by
  have hlt' := Nat.lt_of_le_of_lt hle hlt
  cases h with
  | turn hg report => exact .inl (hinformed.keepsUp_turn hsound hg report hlt k)
  | change _ d => exact hinformed.keepsUp_applyOne hsound hlt' d k
  | @asked _ c _ hne =>
    rcases hchange : Incident.change? (.asked v c) with _ | ⟨u, d⟩
    · exact .inl (keepsUp_execute hne hchange)
    · obtain ⟨rfl, heq⟩ := execute_of_change hchange
      rw [heq, Incident.exit?, hchange]
      exact hinformed.keepsUp_applyOne hsound hlt' d k

/-! ### What is said in a run -/

/-- Somewhere in what has happened a being left its map that a player had not met. Until then the player
had been told `before`, and all that it was told of this is `m`, the farewell of the being. -/
def LeftUnmet (u : World) (past : List Incident) (w : World) (k : EntityId) (before : List Message)
    (m : Message) : Prop :=
  ∃ past' i later v v' e cause x, past = past' ++ i :: later ∧
    Unfolds AdmitsFitting u past' v ∧ Happens AdmitsFitting i v v' ∧
      Unfolds AdmitsFitting v' later w ∧ i.exit? = some (e, cause) ∧ v.Unmet k e.id x ∧
        m = leaveNotice x ∧ v.messagesFor k = before ∧ v'.messagesFor k = before ++ [m]

/-- What has happened stays so when more happens. -/
theorem LeftUnmet.trans {before : List Message} {m : Message} (h : LeftUnmet u past v k before m)
    (h' : Unfolds AdmitsFitting v later w) : LeftUnmet u (past ++ later) w k before m := by
  obtain ⟨past', i, between, v₁, v₂, e, cause, x, rfl, hpast, hi, hbetween, hrest⟩ := h
  refine ⟨past', i, between ++ later, v₁, v₂, e, cause, x, ?_, hpast, hi, hbetween.trans h', hrest⟩
  rw [List.append_assoc, List.cons_append]

/-- A player could make sense of each message that it has been told, or a being left that it had not
met. -/
def Accounted (u : World) (past : List Incident) (w : World) (k : EntityId) : Prop :=
  Throughout (fun before m after => (Scene.ofMessages before).Follows m after ∨
    LeftUnmet u past w k before m) (w.messagesFor k)

/-- What is said in one more incident is accounted for as well. -/
theorem Accounted.step (hv : Accounted u past v k) (h : Unfolds AdmitsFitting u past v)
    (hi : Happens AdmitsFitting i v v')
    (hsaid : KeepsUp k v v' ∨ ∃ e cause x, i.exit? = some (e, cause) ∧ v.Unmet k e.id x ∧
      v'.messagesFor k = v.messagesFor k ++ [leaveNotice x]) :
    Accounted u (past ++ [i]) v' k := by
  -- what was said before stays accounted for, whatever is said now
  have hearlier (ms : List Message) : Throughout (fun before m after =>
      (Scene.ofMessages before).Follows m (after ++ ms) ∨
        LeftUnmet u (past ++ [i]) v' k before m) (v.messagesFor k) :=
    hv.imp fun {before m after} hm =>
      hm.imp (fun hfollows => hfollows.append ms) fun hleft => hleft.trans (.single hi)
  obtain ⟨ms, hms, hfollows⟩ | ⟨e, cause, x, hexit, hunmet, hms⟩ := hsaid
  · rw [Accounted, hms]
    refine throughout_append (hearlier ms) (hfollows.imp fun {before m after} hm => .inl ?_)
    rwa [Scene.ofMessages, List.foldl_append]
  · rw [Accounted, hms]
    refine throughout_append (hearlier _) (throughout_singleton (.inr ?_))
    rw [List.append_nil]
    exact ⟨past, i, [], v, v', e, cause, x, rfl, h, hi, .nil, hexit, hunmet, rfl, rfl, hms⟩

/-- An incident in a run in which all names fit is a few changes that keep the players informed. -/
theorem Happens.develops_fitting (h : Happens AdmitsFitting i v v') :
    Develops { comes := EntityKind.NameFits } v v' :=
  h.develops (fun _ _ => develops_of_admitsFitting) (fun _ => trivial) (fun _ => trivial)
    fun _ => trivial

theorem Unfolds.develops_fitting (h : Unfolds AdmitsFitting u past v) :
    Develops { comes := EntityKind.NameFits } u v :=
  h.develops (fun _ _ => develops_of_admitsFitting) (fun _ => trivial) (fun _ => trivial)
    fun _ => trivial

/-- Whatever happens in a world in which nothing has been said yet, all that is said is accounted
for. -/
theorem Unfolds.accounted (h : Unfolds AdmitsFitting u past w) (hu : u.Sound)
    (hinformed : u.Informed) (hnothing : u.messagesFor k = []) (hlt : w.issued < UInt32.size) :
    Accounted u past w k := by
  induction h with
  | nil =>
    rw [Accounted, hnothing]
    exact throughout_nil
  | @notes past v h deferred ticks ih =>
    refine (ih hlt).imp fun {before m after} hm => hm.imp_right fun hleft => ?_
    have hlater := hleft.trans (Unfolds.nil.notes deferred ticks)
    rwa [List.append_nil] at hlater
  | step h hi ih =>
    have hle := hi.develops_fitting.issued_le
    have hlt' := Nat.lt_of_le_of_lt hle hlt
    have hsound := hu.develops h.develops_fitting hlt'
    have hinformed' := hinformed.develops hu (fun _ h => h) h.develops_fitting hlt'
    exact (ih hlt').step h hi (hi.keepsUp_cases hsound hinformed' hle hlt k)

/-! ### Examples of strangers -/

/-- What a player is told that comes to the hamlet. -/
def hamletNotice : Message :=
  ⟨Opcode.mapChange, Field.textBytes "Hamlet" ++ Field.ofCoordinates 1600 1600 ++ [0]⟩

/-- A character comes to the hamlet and leaves it before the next tick. -/
def shortVisit : World :=
  [.enter "Ann", .enter "Ben", .remove (.nth 2) .disconnect].foldl execute (empty {} hamlet)

/-- A character comes to the hamlet and attacks at once. -/
def ambush : World :=
  [.enter "Ann", .enter "Ben", .attack (.nth 2), .tick].foldl execute (empty {} hamlet)

/-- In a run in which all names fit, go through the messages that were sent to somebody. Each of them
can be read, and it speaks of beings that the messages before it have brought into view, or brings
one into view that was not there. There are two exceptions. A message that somebody attacked may be
followed at once by the one that brings the attacker into view. And there may have been an incident
in the run in which a being left its map, for good or on its way to another place, in range of the
player when one of the two was new on that map: the messages before are those that had been sent until
then, and the message is the one that was sent in the incident, and takes leave of that being. -/
theorem follows_of_history (hmaps : ∀ map name, atlas.mapName map = some name → Field.Fits name)
    (h : History AdmitsFitting (empty config atlas) past w) (hlt : w.issued < UInt32.size)
    {before : List Message} {m : Message} {after : List Message}
    (hsplit : w.messagesFor k = before ++ m :: after) :
    (∃ n, Notification.decode m.bytes = .ok n ∧
      ((Scene.ofMessages before).Expects n ∨
        ∃ x m' rest appearance, n = .attack x ∧ after = m' :: rest ∧
          Notification.decode m'.bytes = .ok (.enter x appearance))) ∨
    LeftUnmet (empty config atlas) past w k before m :=
  h.unfolds.accounted (sound_empty config atlas) (informed_empty (fits_mapTitle hmaps)) rfl hlt
    before m after hsplit

/-- The character that attacks at once comes into view where nobody was in view under its public id. And
that the one who leaves before the next tick is taken leave of comes from an incident in which it left
before it had been met. -/
theorem follows_in_hamlet :
    (∃ before m after appearance, ambush.messagesFor (.nth 1) = before ++ m :: after ∧
      Notification.decode m.bytes = .ok (.enter ⟨1⟩ appearance) ∧
        ¬ (Scene.ofMessages before).Shows ⟨1⟩) ∧
    ∃ past, History AdmitsFitting (empty {} hamlet) past shortVisit ∧
      LeftUnmet (empty {} hamlet) past shortVisit (.nth 1) [hamletNotice] (leaveNotice ⟨1⟩) := by
  constructor
  · have hreach := (reaches_pair.step (.attack (.nth 2)) ⟨trivial, trivial⟩).step .tick
      ⟨trivial, trivial⟩
    obtain ⟨past, hhistory⟩ := exists_history_iff.mpr hreach
    have hissued : ambush.issued = 2 := by cbv
    have hsplit : ambush.messagesFor (.nth 1) =
        [hamletNotice, plainEntrance ⟨0⟩ "Ann", attackNotice ⟨1⟩] ++ plainEntrance ⟨1⟩ "Ben" ::
          [MoveEntry.notice [⟨⟨0⟩, none, some ⟨1600, 1600⟩⟩, ⟨⟨1⟩, none, some ⟨1600, 1600⟩⟩]] := by cbv
    have hdecode : Notification.decode (plainEntrance ⟨1⟩ "Ben").bytes =
        .ok (.enter ⟨1⟩ (.character ⟨"Ben", 0, 0, 0⟩)) := by cbv
    refine ⟨_, _, _, _, hsplit, hdecode, ?_⟩
    obtain ⟨n, hn, hrest⟩ | ⟨past', i, later, v, v', e, cause, x, -, -, -, -, -, -, hm, -, -⟩ :=
      follows_of_history fits_of_mapName_hamlet hhistory (lt_of_eq_of_lt hissued (by decide)) hsplit
    · obtain rfl := Except.ok.inj (hdecode.symm.trans hn)
      obtain hexpects | ⟨x, m', rest, appearance, hattack, -⟩ := hrest
      · exact hexpects
      · cases hattack
    · have hopcode : Opcode.beingEnter = Opcode.beingLeave := congrArg Message.opcode hm
      exact absurd hopcode (by decide)
  · have hreach := reaches_pair.step (.remove (.nth 2) .disconnect) ⟨trivial, trivial⟩
    obtain ⟨past, hhistory⟩ := exists_history_iff.mpr hreach
    have hissued : shortVisit.issued = 2 := by cbv
    have hsplit : shortVisit.messagesFor (.nth 1) = [hamletNotice] ++ leaveNotice ⟨1⟩ :: [] := by cbv
    have hstranger : (Scene.ofMessages [hamletNotice]).beings.contains ⟨1⟩ = false := by cbv
    refine ⟨past, hhistory, ?_⟩
    obtain ⟨n, hn, hrest⟩ | hleft :=
      follows_of_history fits_of_mapName_hamlet hhistory (lt_of_eq_of_lt hissued (by decide)) hsplit
    · obtain rfl := Except.ok.inj ((Notification.decode_leaveNotice ⟨1⟩).symm.trans hn)
      obtain hexpects | ⟨x, m', rest, appearance, hattack, -⟩ := hrest
      · rw [Scene.Expects, Scene.Shows, Std.ExtTreeMap.mem_iff_contains, hstranger] at hexpects
        cases hexpects
      · cases hattack
    · exact hleft

/-- The other character in the hamlet is told that somebody leaves who never came into its view, and
that somebody attacked who is not in its view yet. -/
theorem told_of_strangers :
    (Reaches execute AdmitsFitting (empty {} hamlet) shortVisit ∧
      shortVisit.messagesFor (.nth 1) = [hamletNotice] ++ leaveNotice ⟨1⟩ :: [] ∧
      Notification.decode (leaveNotice ⟨1⟩).bytes = .ok (.leave ⟨1⟩) ∧
      ¬ (Scene.ofMessages [hamletNotice]).Shows ⟨1⟩) ∧
    (Reaches execute AdmitsFitting (empty {} hamlet) ambush ∧
      ambush.messagesFor (.nth 1) =
        [hamletNotice, plainEntrance ⟨0⟩ "Ann"] ++ attackNotice ⟨1⟩ ::
          [plainEntrance ⟨1⟩ "Ben", MoveEntry.notice
            [⟨⟨0⟩, none, some ⟨1600, 1600⟩⟩, ⟨⟨1⟩, none, some ⟨1600, 1600⟩⟩]] ∧
      Notification.decode (attackNotice ⟨1⟩).bytes = .ok (.attack ⟨1⟩) ∧
      ¬ (Scene.ofMessages [hamletNotice, plainEntrance ⟨0⟩ "Ann"]).Shows ⟨1⟩) := by
  have hvisit := reaches_pair.step (.remove (.nth 2) .disconnect) ⟨trivial, trivial⟩
  have hambush := (reaches_pair.step (.attack (.nth 2)) ⟨trivial, trivial⟩).step .tick
    ⟨trivial, trivial⟩
  have hstranger {s : Scene} {x : PublicId} (h : s.beings.contains x = false) : ¬ s.Shows x := by
    rw [Scene.Shows, Std.ExtTreeMap.mem_iff_contains, h]
    decide
  exact ⟨⟨hvisit, by cbv, Notification.decode_leaveNotice _, hstranger (by cbv)⟩,
    hambush, by cbv, Notification.decode_attackNotice _, hstranger (by cbv)⟩

end World

end TileWorld
