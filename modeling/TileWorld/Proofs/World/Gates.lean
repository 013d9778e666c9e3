import TileWorld.Proofs.World.Chronicle
import TileWorld.Proofs.World.Relocation

/-!
# Gates

Those who stand in the gates of a map when it has its turn are taken through them afterwards, when the
changes are carried out that the turn has put off (`gates_of_reaches`). What a turn puts off for a
player is its way through the gates in the order of the plan (`route`). It is settled before anybody is
taken anywhere, so a gate at the far end takes nobody further, and of a list of warps each entity sees
only its own (`Conveys`).
-/

namespace TileWorld

open Relation Delivery

/-- A point of a map to which somebody is sent. -/
structure Stop where
  /-- The map. -/
  map : MapId
  /-- The point. -/
  point : Point
deriving DecidableEq

/-- The map exists and has the point. -/
def Stop.isReal (atlas : Atlas) (s : Stop) : Bool :=
  (atlas.plan s.map).any fun plan => plan.terrain.contains s.point

/-- The stop to which a change is to take an entity. -/
def Deferred.stopOf? (id : EntityId) : Deferred → Option Stop
  | .warp k map p => if id = k then some ⟨map, p⟩ else none
  | .remove _ _ => none

/-- The stops that are in store for an entity, one after the other. Those that do not exist are passed
over. -/
def itinerary (atlas : Atlas) (ds : List Deferred) (id : EntityId) : List Stop :=
  (ds.filterMap (Deferred.stopOf? id)).filter (Stop.isReal atlas)

/-- Where an entity is in the end that was on the map `m`, and what has become of it, if it was taken
from stop to stop. -/
def Entity.Settles (e : Entity) (m : MapId) (stops : List Stop) (m' : MapId) (o : Entity) : Prop :=
  match stops.getLast? with
  | none => m' = m ∧ o = e
  | some s => m' = s.map ∧ ∃ x, o = (e.place s.map s.point).arrived x

namespace Entity.Settles

variable {e o o' : Entity} {m m' m'' : MapId} {stops stops' : List Stop}

theorem nil (e : Entity) (m : MapId) : e.Settles m [] m e := ⟨rfl, rfl⟩

theorem singleton (e : Entity) (m : MapId) (s : Stop) (x : PublicId) :
    e.Settles m [s] s.map ((e.place s.map s.point).arrived x) := ⟨rfl, x, rfl⟩

theorem isPlayer (h : e.Settles m stops m' o) : o.isPlayer = e.isPlayer := by
  rw [Settles] at h
  split at h
  · rw [h.2]
  · obtain ⟨-, x, rfl⟩ := h
    rfl

/-- Only the last stop leaves its mark. -/
theorem append (h : e.Settles m stops m' o) (h' : o.Settles m' stops' m'' o') :
    e.Settles m (stops ++ stops') m'' o' := by
  rcases hlast : stops'.getLast? with _ | s
  · obtain rfl := List.getLast?_eq_none_iff.mp hlast
    obtain ⟨rfl, rfl⟩ := h'
    rwa [List.append_nil]
  · rw [Settles, hlast] at h'
    rw [Settles, List.getLast?_append, hlast]
    obtain ⟨rfl, x, rfl⟩ := h'
    refine ⟨rfl, x, ?_⟩
    rw [Settles] at h
    split at h
    · rw [h.2]
    · obtain ⟨-, y, rfl⟩ := h
      rfl

end Entity.Settles

namespace World

variable {config : WorldConfig} {atlas : Atlas} {u v v' v'' w : World} {m map : MapId}
  {id k : EntityId} {e o : Entity} {g : Region} {p : Point} {ds : List Deferred}
  {ms ms' : List Moment} {stops stops' : EntityId → List Stop}

/-! ### Being taken from stop to stop -/

/-- The stop to which an entity is taken in a moment. -/
def Moment.takes? (id : EntityId) : Moment → Option Stop
  | .change v (.warp k map p) => if id = k ∧ (v.warp k map p).1.isOk then some ⟨map, p⟩ else none
  | _ => none

/-- In some moments everybody who is anywhere is taken from stop to stop, ends up at the last one, and
is told of each if it is a player. -/
structure Conveys (v : World) (stops : EntityId → List Stop) (ms : List Moment) (v' : World) :
    Prop where
  /-- Everybody comes to its stops, in their order, and to no others. -/
  takes : ∀ m id e, v.Finds m id e → ms.filterMap (Moment.takes? id) = stops id
  settles : ∀ m id e, v.Finds m id e → ∃ m' o, e.Settles m (stops id) m' o ∧
    ∀ m'' o', v'.Finds m'' id o' ↔ m'' = m' ∧ o' = o
  /-- Who is nowhere goes nowhere. -/
  takesNot : ∀ id, (∀ m e, ¬ v.Finds m id e) → ms.filterMap (Moment.takes? id) = []
  nowhere : ∀ id, (∀ m e, ¬ v.Finds m id e) → ∀ m e, ¬ v'.Finds m id e
  /-- A player is told of each stop once, unless the name of the map cannot be written. -/
  told : ∃ sent, v'.outbox = v.outbox ++ sent ∧ ∀ m id e, v.Finds m id e →
    (messagesTo sent id).filter (fun message => message.opcode = Opcode.mapChange) =
      if e.isPlayer then
        (stops id).filterMap fun s => (mapNotice (v.mapTitle s.map) s.point).toOption
      else []

theorem Sound.conveys_nil (hv : v.Sound) (hfinds : ∀ m id e, v'.Finds m id e ↔ v.Finds m id e)
    (hout : v'.outbox = v.outbox) (hms : ∀ id, ms.filterMap (Moment.takes? id) = [])
    (hstops : ∀ m id e, v.Finds m id e → stops id = []) : Conveys v stops ms v' where
  takes m id e he := by rw [hms, hstops m id e he]
  settles m id e he := by
    refine ⟨m, e, by rw [hstops m id e he]; exact .nil e m, fun m'' o' => ?_⟩
    rw [hfinds]
    constructor
    · exact fun ho => ⟨(hv.finds_unique ho he).1, (hv.finds_unique ho he).2⟩
    · rintro ⟨rfl, rfl⟩
      exact he
  takesNot id _ := hms id
  nowhere id hno m e he := hno m e ((hfinds m id e).mp he)
  told := by
    refine ⟨[], by rw [hout, List.append_nil], fun m id e he => ?_⟩
    rw [hstops m id e he]
    split <;> rfl

/-- To be taken from stop to stop, and then from stop to stop. -/
theorem Conveys.trans (h : Conveys v stops ms v') (hatlas : v'.atlas = v.atlas)
    (h' : Conveys v' stops' ms' v'') :
    Conveys v (fun id => stops id ++ stops' id) (ms ++ ms') v'' where
  takes m id e he := by
    obtain ⟨m', o, -, hfinds⟩ := h.settles m id e he
    rw [List.filterMap_append, h.takes m id e he, h'.takes m' id o ((hfinds m' o).mpr ⟨rfl, rfl⟩)]
  settles m id e he := by
    obtain ⟨m', o, hsettles, hfinds⟩ := h.settles m id e he
    obtain ⟨m'', o', hsettles', hfinds'⟩ := h'.settles m' id o ((hfinds m' o).mpr ⟨rfl, rfl⟩)
    exact ⟨m'', o', hsettles.append hsettles', hfinds'⟩
  takesNot id hno := by
    rw [List.filterMap_append, h.takesNot id hno, h'.takesNot id (h.nowhere id hno)]
    rfl
  nowhere id hno := h'.nowhere id (h.nowhere id hno)
  told := by
    obtain ⟨sent, hout, hsent⟩ := h.told
    obtain ⟨sent', hout', hsent'⟩ := h'.told
    refine ⟨sent ++ sent', by rw [hout', hout, List.append_assoc], fun m id e he => ?_⟩
    obtain ⟨m', o, hsettles, hfinds⟩ := h.settles m id e he
    have htitle (m : MapId) : v'.mapTitle m = v.mapTitle m := by rw [mapTitle, hatlas, mapTitle]
    rw [messagesTo_append, List.filter_append, hsent m id e he,
      hsent' m' id o ((hfinds m' o).mpr ⟨rfl, rfl⟩), hsettles.isPlayer]
    simp only [htitle]
    split
    · rw [List.filterMap_append]
    · rfl

/-- Who has no stops is taken nowhere. -/
theorem Conveys.stays (h : Conveys v stops ms v') (hv : v.Sound) (hstops : stops id = []) :
    ms.filterMap (Moment.takes? id) = [] ∧ ∀ m o, v'.Finds m id o ↔ v.Finds m id o := by
  by_cases hfound : ∃ m e, v.Finds m id e
  · obtain ⟨m, e, he⟩ := hfound
    obtain ⟨m', o', hsettles, hends⟩ := h.settles m id e he
    rw [hstops] at hsettles
    obtain ⟨rfl, rfl⟩ := hsettles
    refine ⟨by rw [h.takes _ id _ he, hstops], fun m o => (hends m o).trans ?_⟩
    constructor
    · rintro ⟨rfl, rfl⟩
      exact he
    · exact fun ho => hv.finds_unique ho he
  · have hnowhere (m : MapId) (e : Entity) : ¬ v.Finds m id e := fun he => hfound ⟨m, e, he⟩
    exact ⟨h.takesNot id hnowhere, fun m o => iff_of_false (h.nowhere id hnowhere m o) (hnowhere m o)⟩

/-- A place that a warp can lead to is one that the plans provide for. -/
theorem Upkept.isReal_of_hasPlace (hv : v.Upkept atlas) (hatlas : v.atlas = atlas)
    (h : v.HasPlace map p) : Stop.isReal atlas ⟨map, p⟩ = true := by
  obtain ⟨g, v', hact, hp⟩ := h
  have hkept : ∃ plan, atlas.plan map = some plan ∧ g.Upkept map plan := by
    obtain ⟨hg, -⟩ | ⟨-, plan, hplan, -, rfl⟩ := activate_eq_ok_iff.mp hact
    · exact hv map g hg
    · exact ⟨plan, hatlas ▸ hplan, v.upkept_regionOfPlan map plan⟩
  obtain ⟨plan, hplan, hg⟩ := hkept
  rw [Stop.isReal, hplan, Option.any_some, ← hg.terrain]
  exact hp

/-- A warp to a place that does not exist comes to nothing, and so does one of somebody who is nowhere. -/
theorem Sound.warp_of_not (hv : v.Sound) (hkept : v.Upkept atlas) (hatlas : v.atlas = atlas)
    (h : v.mapOf id = none ∨ Stop.isReal atlas ⟨map, p⟩ = false) :
    ∃ err v', v.warp id map p = (.error err, v') ∧
      (∀ m k o, v'.Finds m k o ↔ v.Finds m k o) ∧ v'.outbox = v.outbox := by
  obtain ⟨-, err, v', hwarp, rfl | ⟨g, hact⟩⟩ | ⟨hlisted, hplace, -⟩ :=
    hv.orderly.toHoused.warp_cases id map p
  · exact ⟨err, v', hwarp, fun _ _ _ => Iff.rfl, rfl⟩
  · exact ⟨err, v', hwarp, fun _ _ _ => finds_activate_iff hact, outbox_activate hact⟩
  · rw [hkept.isReal_of_hasPlace hatlas hplace] at h
    exact absurd (h.resolve_right (by simp)) hlisted

/-- Of those who take leave nobody says where anybody is. -/
theorem filter_messagesTo_toAll (ids : List EntityId) (x : PublicId) (k : EntityId) :
    (messagesTo (toAll ids (leaveNotice x)) k).filter
      (fun message => message.opcode = Opcode.mapChange) = [] := by
  refine List.filter_eq_nil_iff.mpr fun message hmem => ?_
  obtain ⟨d, hd, rfl⟩ := List.mem_map.mp hmem
  obtain ⟨id, -, rfl⟩ := List.mem_map.mp (List.mem_filter.mp hd).1
  simp [leaveNotice, show Opcode.beingLeave ≠ Opcode.mapChange by decide]

/-- A player that comes is told where it is, unless the name of the map cannot be written. -/
theorem filter_messagesTo_arrivals (w : World) (e : Entity) (k : EntityId) :
    (messagesTo (w.arrivals e) k).filter (fun message => message.opcode = Opcode.mapChange) =
      if k = e.id ∧ e.isPlayer = true then
        (mapNotice (w.mapTitle e.map) e.position).toOption.toList
      else [] := by
  rw [arrivals]
  by_cases hplayer : e.isPlayer = true
  · rw [if_pos hplayer]
    rcases hm : mapNotice (w.mapTitle e.map) e.position with err | message
    · simp [messagesTo, Except.toOption]
    · obtain ⟨-, rfl⟩ := mapNotice_eq_ok_iff.mp hm
      by_cases hk : k = e.id
      · simp [messagesTo, hk, hplayer, Except.toOption]
      · simp [messagesTo, hk, Ne.symm hk]
  · simp [hplayer, messagesTo]

/-- Who has left its map and comes to another is told where it is if it is a player, and nobody else is
told where anybody is. -/
theorem Departs.told_of_comes (h : v.Departs m map e v') (p : Point) (g : Region) :
    ∃ sent, (v'.welcome (Entity.place { e with publicId := none } map p) g).outbox =
        v.outbox ++ sent ∧
      ∀ k, (messagesTo sent k).filter (fun message => message.opcode = Opcode.mapChange) =
        if k = e.id ∧ e.isPlayer = true then (mapNotice (v.mapTitle map) p).toOption.toList
        else [] := by
  obtain ⟨y, ids, -, -, hsaid⟩ := h.said
  refine ⟨_, (congrArg (· ++ _) hsaid).trans (List.append_assoc ..), fun k => ?_⟩
  have htitle : v'.mapTitle map = v.mapTitle map := by
    rw [mapTitle, h.confined.rest.atlas, mapTitle]
  have hleave := filter_messagesTo_toAll ids y k
  rw [leaveNotice] at hleave
  rw [messagesTo_append, List.filter_append, hleave, List.nil_append, ← htitle]
  exact filter_messagesTo_arrivals ..

/-- An entity that is sent to a place that exists, and is not refused there, is taken to it. -/
theorem Sound.conveys_of_comes (hv : v.Sound) (he : v.Finds m e.id e)
    (hdeparts : v.Departs m map e v') {x : PublicId} {g' : Region}
    (hcomes : v'.Comes (Entity.place { e with publicId := none } map p) x g g')
    (htakes : ∀ k, ms.filterMap (Moment.takes? k) = if k = e.id then [⟨map, p⟩] else []) :
    Conveys v (fun k => if k = e.id then [⟨map, p⟩] else []) ms
      (v'.welcome (Entity.place { e with publicId := none } map p) g') := by
  have hfinds (m' : MapId) (k : EntityId) (o : Entity) :
      (v'.welcome (Entity.place { e with publicId := none } map p) g').Finds m' k o ↔
        (k ≠ e.id ∧ v.Finds m' k o) ∨
          (m' = map ∧ k = e.id ∧ o = (e.place map p).arrived x) := by
    rw [finds_welcome_iff hcomes]
    refine or_congr_left ⟨fun ho => ?_, fun ⟨hne, ho⟩ => (hdeparts.confined.finds m' k o hne).mpr ho⟩
    have hne : k ≠ e.id := by
      rintro rfl
      exact hdeparts.gone m' o ho
    exact ⟨hne, (hdeparts.confined.finds m' k o hne).mp ho⟩
  refine ⟨fun m' k o _ => htakes k, fun m' k o ho => ?_, fun k hno => ?_, fun k hno m' o ho => ?_, ?_⟩
  · by_cases hk : k = e.id
    · subst hk
      obtain ⟨rfl, rfl⟩ := hv.finds_unique ho he
      refine ⟨map, (o.place map p).arrived x, ?_, fun m'' o' => ?_⟩
      · rw [if_pos rfl]
        exact .singleton o m' ⟨map, p⟩ x
      · simp [hfinds]
    · refine ⟨m', o, ?_, fun m'' o' => ?_⟩
      · rw [if_neg hk]
        exact .nil o m'
      · simp only [hfinds, hk, ne_eq, not_false_eq_true, true_and, false_and, and_false, or_false]
        exact ⟨fun ho' => hv.finds_unique ho' ho, fun ⟨hm, ho'⟩ => hm ▸ ho' ▸ ho⟩
  · have hk : k ≠ e.id := by
      rintro rfl
      exact hno m e he
    rw [htakes, if_neg hk]
  · obtain ⟨-, ho⟩ | ⟨-, rfl, -⟩ := (hfinds m' k o).mp ho
    · exact hno m' o ho
    · exact hno m e he
  · obtain ⟨sent, hout, hsent⟩ := hdeparts.told_of_comes p g'
    refine ⟨sent, hout, fun m' k o ho => ?_⟩
    rw [hsent]
    by_cases hk : k = e.id
    · subst hk
      obtain ⟨rfl, rfl⟩ := hv.finds_unique ho he
      rcases o.isPlayer
      · simp
      · rcases hnotice : mapNotice (v.mapTitle map) p with err | message <;>
          simp [hnotice, Except.toOption]
    · simp [hk]

/-- A warp that is not refused takes the entity to its stop if there is one, and leaves everybody else
alone. -/
theorem Sound.conveys_warp (hv : v.Sound) (hlt : v.issued < UInt32.size) (hkept : v.Upkept atlas)
    (hatlas : v.atlas = atlas)
    (hroom : (v.warp id map p).1 ≠ .error (.insertion (.noPublicId id map))) :
    Conveys v (itinerary atlas [.warp id map p]) [.change v (.warp id map p)] (v.warp id map p).2 := by
  have hstops (k : EntityId) : itinerary atlas [.warp id map p] k =
      if k = id ∧ Stop.isReal atlas ⟨map, p⟩ = true then [⟨map, p⟩] else [] := by
    by_cases hk : k = id <;> cases hreal : Stop.isReal atlas ⟨map, p⟩ <;>
      simp [itinerary, Deferred.stopOf?, hk, hreal]
  have htakes (k : EntityId) : [Moment.change v (.warp id map p)].filterMap (Moment.takes? k) =
      if k = id ∧ (v.warp id map p).1.isOk then [⟨map, p⟩] else [] := by
    by_cases hk : k = id <;> cases hok : (v.warp id map p).1.isOk <;>
      simp [Moment.takes?, hk, hok]
  by_cases hgoes : v.mapOf id = none ∨ Stop.isReal atlas ⟨map, p⟩ = false
  · obtain ⟨err, v', hwarp, hfinds, hout⟩ := hv.warp_of_not hkept hatlas hgoes
    rw [hwarp] at htakes ⊢
    refine hv.conveys_nil hfinds hout (fun k => ?_) fun m k e ⟨g, hg, he⟩ => ?_
    · rw [htakes, if_neg (by simp [Except.isOk, Except.toBool])]
    · have hmap : v.mapOf k = some m := hv.located.mpr ⟨g, e, hg, he⟩
      rw [hstops, if_neg]
      rintro ⟨rfl, hreal⟩
      rcases hgoes with hnone | hunreal
      · simp [hmap] at hnone
      · simp [hreal] at hunreal
  · obtain ⟨hmap, hreal⟩ := not_or.mp hgoes
    obtain ⟨m, hm⟩ := Option.ne_none_iff_exists'.mp hmap
    obtain ⟨g, e, hg, he⟩ := hv.located.mp hm
    obtain rfl : e.id = id := (hv.region hg).2.placed.id_eq he
    rw [Bool.not_eq_false] at hreal
    obtain ⟨plan, hplan, hp⟩ : ∃ plan, atlas.plan map = some plan ∧
        plan.terrain.contains p = true := by
      simpa [Stop.isReal, Option.any_eq_true] using hreal
    obtain ⟨v', g', hdeparts, hg', hkept', hcome, hrefuse⟩ :=
      hv.exists_departs hlt hkept hatlas ⟨g, hg, he⟩ hplan hp
    obtain ⟨x, g'', -, hcomes⟩ | ⟨-, hadd⟩ := hdeparts.comes_or_refused hg' hkept' hp
    · have hwarp := hcome _ _ hcomes.add
      rw [hwarp] at htakes ⊢
      have htakes' (k : EntityId) : [Moment.change v (.warp e.id map p)].filterMap
          (Moment.takes? k) = if k = e.id then [⟨map, p⟩] else [] := by
        rw [htakes]
        simp [Except.isOk, Except.toBool]
      have hstops' : itinerary atlas [.warp e.id map p] =
          fun k => if k = e.id then [⟨map, p⟩] else [] := by
        funext k
        rw [hstops]
        simp [hreal]
      rw [hstops']
      exact hv.conveys_of_comes ⟨g, hg, he⟩ hdeparts hcomes htakes'
    · exact absurd (congrArg Prod.fst (hrefuse _ _ hadd)) hroom

/-- Warps that are carried out one after the other, and of which none is refused, take everybody from
stop to stop. -/
theorem Sound.conveys_applyAll (hv : v.Sound) (hlt : v.issued < UInt32.size) (hkept : v.Upkept atlas)
    (hatlas : v.atlas = atlas) (hds : ∀ d ∈ ds, ∃ id map p, d = .warp id map p)
    (hroom : ∀ u id map p, .change u (.warp id map p) ∈ applyMoments v ds →
      (u.warp id map p).1 ≠ .error (.insertion (.noPublicId id map))) :
    Conveys v (itinerary atlas ds) (applyMoments v ds) (v.applyAll ds).2 := by
  induction ds generalizing v with
  | nil => exact hv.conveys_nil (fun _ _ _ => Iff.rfl) rfl (fun _ => rfl) fun _ _ _ _ => rfl
  | cons d ds ih =>
    obtain ⟨id, map, p, rfl⟩ := hds d List.mem_cons_self
    have hone := hv.conveys_warp hlt hkept hatlas (hroom v id map p List.mem_cons_self)
    have hdev : Develops .ofTick v (v.warp id map p).2 := by
      rw [← snd_applyOne_warp]
      exact develops_applyOne (mayApply_ofTick _)
    obtain ⟨hkept', hatlas'⟩ := hkept.develops hatlas hdev
    have hlt' : (v.warp id map p).2.issued < UInt32.size := by rwa [issued_warp]
    have hrest : Conveys (v.warp id map p).2 (itinerary atlas ds)
        (applyMoments (v.warp id map p).2 ds) ((v.warp id map p).2.applyAll ds).2 := by
      refine ih (hv.develops hdev hlt') hlt' hkept' hatlas'
        (fun d hd => hds d (List.mem_cons_of_mem _ hd)) fun u k m q hmem => hroom u k m q ?_
      rw [applyMoments, snd_applyOne_warp]
      exact List.mem_cons_of_mem _ hmem
    have hboth := hone.trans (hatlas'.trans hatlas.symm) hrest
    have hstops : itinerary atlas (.warp id map p :: ds) =
        fun k => itinerary atlas [.warp id map p] k ++ itinerary atlas ds k := by
      funext k
      simp only [itinerary, ← List.filter_append, ← List.filterMap_append, List.singleton_append]
    have hworld : (v.applyAll (.warp id map p :: ds)).2 = ((v.warp id map p).2.applyAll ds).2 := by
      rw [← snd_applyOne_warp]
      rfl
    rw [hstops, hworld, applyMoments, snd_applyOne_warp]
    exact hboth

end World

/-! ### What gates do -/

/-- The gate that a fixture is, if it is one. -/
def Fixture.gate? : Fixture → Option Gate
  | .gate a => some a
  | .spawn _ => none

/-- Where a gate leads. -/
def Gate.stop (gate : Gate) : Stop := ⟨gate.map, gate.target⟩

/-- The gates of a map, in the order in which they work. -/
def Region.gates (g : Region) : List Gate := g.fixtures.filterMap Fixture.gate?

namespace Bookkeeping

variable {b : Bookkeeping} {id : EntityId} {p : Entity} {g : Region}

/-- Of several entities, all of which are sent to the same place, each is sent there once. -/
theorem filterMap_stopOf?_map {l : List Entity} (hl : l.Pairwise fun e e' => e.id ≠ e'.id)
    (map : MapId) (target : Point) (id : EntityId) :
    (l.map fun e => Deferred.warp e.id map target).filterMap (Deferred.stopOf? id) =
      if ∃ e ∈ l, e.id = id then [⟨map, target⟩] else [] := by
  induction l with
  | nil => simp
  | cons a l ih =>
    obtain ⟨ha, hl⟩ := List.pairwise_cons.mp hl
    rw [List.map_cons, List.filterMap_cons, ih hl, Deferred.stopOf?]
    by_cases hid : id = a.id
    · subst hid
      have hnone : ¬ ∃ e ∈ l, e.id = a.id := fun ⟨e, he, heq⟩ => ha e he heq.symm
      rw [if_pos rfl, if_neg hnone, if_pos ⟨a, List.mem_cons_self, rfl⟩]
    · rw [if_neg hid]
      simp [Ne.symm hid]

/-- While the fixtures of a map work, a player is sent through the gates in which it stands, in the
order of the gates. -/
theorem filterMap_stopOf?_runAll (hb : b.region.Sound) (hp : b.region.find? id = some p)
    (hplayer : p.isPlayer = true) (fs : List Fixture) :
    (b.runAll fs).2.deferred.filterMap (Deferred.stopOf? id) =
      b.deferred.filterMap (Deferred.stopOf? id) ++
        ((fs.filterMap Fixture.gate?).filter fun gate => gate.area.contains p.position).map
          Gate.stop := by
  induction fs generalizing b with
  | nil => simp [runAll]
  | cons f fs ih =>
    have hrest := ih (kept_region_sound.run hb f) ((b.outgrows_run f).stays id p hp)
    refine hrest.trans ?_
    cases f with
    | gate gate =>
      have hdistinct := hb.placed.pairwise_players.filter fun q => gate.area.contains q.position
      have hinside : (∃ e ∈ b.region.players.filter fun q => gate.area.contains q.position,
          e.id = id) ↔ gate.area.contains p.position = true := by
        constructor
        · rintro ⟨e, he, rfl⟩
          obtain ⟨hmem, hin⟩ := List.mem_filter.mp he
          have hsame := hb.placed.find?_of_mem (Region.mem_players_iff.mp hmem).1
          rw [hp, Option.some.injEq] at hsame
          rwa [hsame]
        · intro hin
          have hmem := Region.mem_players_iff.mpr ⟨Region.mem_entities_of_find? hp, hplayer⟩
          exact ⟨p, List.mem_filter.mpr ⟨hmem, hin⟩, hb.placed.id_eq hp⟩
      have hgates : (Fixture.gate gate :: fs).filterMap Fixture.gate? =
          gate :: fs.filterMap Fixture.gate? := rfl
      simp only [run, openGate, List.filterMap_append, filterMap_stopOf?_map hdistinct, hinside,
        hgates, List.filter_cons]
      split <;> simp [Gate.stop]
    | spawn s =>
      have hsame : (b.run (.spawn s)).2.deferred = b.deferred := by
        simp only [run, runSpawn]
        split <;> rfl
      have hgates : (Fixture.spawn s :: fs).filterMap Fixture.gate? = fs.filterMap Fixture.gate? := rfl
      rw [hsame, hgates]

/-- The players on the map are those of the map `g`, and only they are sent anywhere. -/
structure Leads (g : Region) (b : Bookkeeping) : Prop where
  players : ∀ k e, b.region.find? k = some e → e.isPlayer = true → g.find? k = some e
  sent : ∀ d ∈ b.deferred, ∃ id map p, d = .warp id map p ∧
    ∃ e, g.find? id = some e ∧ e.isPlayer = true

/-- Gates send only players who are on the map. -/
theorem kept_leads (hg : g.Placed) : Kept (Leads g) where
  draws b random hb := ⟨hb.players, hb.sent⟩
  wastes b hb := ⟨hb.players, hb.sent⟩
  sends b ps map p hps hb := by
    refine ⟨hb.players, fun d hd => ?_⟩
    rcases List.mem_append.mp hd with hd | hd
    · exact hb.sent d hd
    · obtain ⟨e, he, rfl⟩ := List.mem_map.mp hd
      obtain ⟨hmem, hplayer⟩ := Region.mem_players_iff.mp (hps e he)
      obtain ⟨k, hk⟩ := Region.mem_entities_iff.mp hmem
      have hfind := hb.players k e hk hplayer
      rw [← hg.id_eq hfind] at hfind
      exact ⟨e.id, map, p, rfl, e, hfind, hplayer⟩
  spawns b sort p x g' hb hins := by
    refine ⟨fun k e hk hplayer => ?_, hb.sent⟩
    obtain ⟨-, rfl⟩ | ⟨-, hk⟩ := Region.find?_mark_insert_cases hins hk
    · cases hplayer
    · exact hb.players k e hk hplayer

end Bookkeeping

namespace World

variable {config : WorldConfig} {atlas : Atlas} {v w : World} {g : Region} {id : EntityId}
  {p : Entity} {maps : List MapId} {s : TickReport × World} {report : TickReport}

/-- The stops to which the gates of a map take an entity that stands in them. Gates that lead to places
that do not exist take nobody anywhere. -/
def route (atlas : Atlas) (g : Region) (p : Entity) : List Stop :=
  (g.gates.filter fun gate =>
    gate.area.contains p.position && gate.stop.isReal atlas).map Gate.stop

/-- If nothing waits when a map has its turn, then what waits afterwards is that the players in its
gates are taken where the gates lead. -/
theorem leads_worked (hg : g.Sound) (hidle : v.deferred = []) : (v.worked g).Leads g.advance :=
  (Bookkeeping.kept_leads hg.advance.placed).runAll (b := v.books g)
    ⟨fun _ _ he _ => he, fun d hd => by
      rw [show (v.books g).deferred = [] from hidle] at hd
      cases hd⟩ g.fixtures

/-- In the turn of a map, the stops in store for a player are those to which the gates take it. -/
theorem itinerary_worked (hg : g.Sound) (hidle : v.deferred = [])
    (hp : g.advance.find? id = some p) (hplayer : p.isPlayer = true) :
    itinerary atlas (v.worked g).deferred id = route atlas g p := by
  have hsent := Bookkeeping.filterMap_stopOf?_runAll (b := v.books g) hg.advance hp hplayer g.fixtures
  have hnone : (v.books g).deferred.filterMap (Deferred.stopOf? id) = [] := by
    rw [show (v.books g).deferred = [] from hidle]
    rfl
  rw [hnone, List.nil_append] at hsent
  rw [itinerary, worked, hsent, route, Region.gates, List.filter_map, List.filter_filter]
  refine congrArg (List.map Gate.stop) (List.filter_congr fun gate _ => ?_)
  exact Bool.and_comm ..

/-- Who is sent nowhere by the gates of a map has no stops in store. -/
theorem itinerary_worked_eq_nil (hg : g.Sound) (hidle : v.deferred = [])
    (h : ∀ p, g.advance.find? id = some p → p.isPlayer = true → route atlas g p = []) :
    itinerary atlas (v.worked g).deferred id = [] := by
  by_cases hplayer : ∃ p, g.advance.find? id = some p ∧ p.isPlayer = true
  · obtain ⟨p, hp, hplayer⟩ := hplayer
    rw [itinerary_worked hg hidle hp hplayer, h p hp hplayer]
  · have hnone : (v.worked g).deferred.filterMap (Deferred.stopOf? id) = [] := by
      refine List.filterMap_eq_nil_iff.mpr fun d hd => ?_
      obtain ⟨k, map, p, rfl, e, he, hk⟩ := (leads_worked hg hidle).sent d hd
      refine if_neg ?_
      rintro rfl
      exact hplayer ⟨e, he, hk⟩
    rw [itinerary, hnone]
    rfl

/-! ### One map after the other -/

/-- If nothing waits in the beginning, then nothing waits when a map has its turn. -/
theorem exists_pass_of_restMoments (hidle : s.2.deferred = []) (h : .turn v g ∈ restMoments maps s) :
    v.deferred = [] ∧ ∃ map, v.region? map = some g ∧ ∀ report, ∃ before after,
      restMoments maps s = before ++ passMoments map (report, v) ++ after := by
  induction maps generalizing s with
  | nil => exact (turn_not_mem_applyMoments _ _ h).elim
  | cons map maps ih =>
    obtain ⟨report₀, v₀⟩ := s
    obtain h | h := List.mem_append.mp h
    · rcases hg : v₀.region? map with _ | g₀
      · rw [passMoments, hg] at h
        cases h
      · rw [passMoments, hg] at h
        obtain heq | h := List.mem_cons.mp h
        · cases heq
          refine ⟨hidle, map, hg, fun report => ⟨[], restMoments maps (passMap map (report₀, v)), ?_⟩⟩
          rw [restMoments, passMoments, passMoments, hg]
          rfl
        · exact (turn_not_mem_applyMoments _ _ h).elim
    · have hidle' : (passMap map (report₀, v₀)).2.deferred = [] := by
        rw [passMap]
        split
        · exact hidle
        · exact deferred_settle ..
      obtain ⟨hv, m, hm, hpass⟩ := ih hidle' h
      refine ⟨hv, m, hm, fun report => ?_⟩
      obtain ⟨before, after, hmoments⟩ := hpass report
      refine ⟨passMoments map (report₀, v₀) ++ before, after, ?_⟩
      rw [restMoments, hmoments]
      simp only [List.append_assoc]

/-- When a map has its turn in a tick, all is well, and all is well after it. -/
theorem Sound.of_turn (hw : w.Sound) (hlt : w.tick.2.issued < UInt32.size)
    (h : .turn v g ∈ w.moments) (report : TickReport) :
    v.Sound ∧ (v.passRegion g report).2.Sound ∧
      (v.passRegion g report).2.issued < UInt32.size := by
  obtain ⟨before, after, hmoments⟩ := List.append_of_mem h
  obtain ⟨_, _, -, hhappens, hafter⟩ := unfolds_of_moments (fun _ _ => False) hmoments
  cases hhappens with
  | turn hg report' =>
    have hdone : Develops .ofTick (v.passRegion g report').2 w.tick.2 := by
      refine hafter.develops (fun _ _ hno => False.elim hno) ?_ ?_ ?_ <;> exact fun _ => trivial
    have hturn : (v.passRegion g report).2 = (v.passRegion g report').2 := rfl
    have hlt' := Nat.lt_of_le_of_lt hdone.issued_le hlt
    have hv := hw.develops (develops_of_turn h).1
      (Nat.lt_of_le_of_lt (v.issued_le_worked g) hlt')
    rw [hturn]
    exact ⟨hv, hv.turn hg report' hlt', hlt'⟩

/-- What waits after the turn of a map is carried out. -/
theorem passMap_eq (hg : v.region? g.id = some g) (report : TickReport) :
    passMoments g.id (report, v) = .turn v g :: (v.passRegion g report).2.settleMoments ∧
      (passMap g.id (report, v)).2 = ({ (v.passRegion g report).2 with deferred := [] }.applyAll
        (v.worked g).deferred).2 := by
  rw [passMoments, passMap, hg]
  exact ⟨rfl, rfl⟩

/-- If nothing waits when a map has its turn, then everybody is taken afterwards to the stops that the
turn has put off. -/
theorem Sound.conveys_passMap (hv : v.Sound) (hg : v.region? g.id = some g) (hidle : v.deferred = [])
    (hu : (v.passRegion g report).2.Sound) (hlt : (v.passRegion g report).2.issued < UInt32.size)
    (hkept : (v.passRegion g report).2.Upkept atlas)
    (hatlas : (v.passRegion g report).2.atlas = atlas)
    (hroom : ∀ u id map p, .change u (.warp id map p) ∈ passMoments g.id (report, v) →
      (u.warp id map p).1 ≠ .error (.insertion (.noPublicId id map))) :
    Conveys (v.passRegion g report).2 (itinerary atlas (v.worked g).deferred)
      (passMoments g.id (report, v)) (World.passMap g.id (report, v)).2 := by
  obtain ⟨hmoments, hafter⟩ := passMap_eq hg report
  rw [hmoments] at hroom ⊢
  rw [hafter]
  have hclear : { (v.passRegion g report).2 with deferred := [] }.Sound :=
    hu.congr rfl rfl (Nat.le_refl _)
  have hwarps (d : Deferred) (hd : d ∈ (v.worked g).deferred) : ∃ id map p, d = .warp id map p := by
    obtain ⟨id, map, p, rfl, -⟩ := (leads_worked (hv.region hg).2 hidle).sent d hd
    exact ⟨id, map, p, rfl⟩
  have hcarried := hclear.conveys_applyAll hlt (hkept.congr rfl) hatlas hwarps
    fun u id map p hmem => hroom u id map p (List.mem_cons_of_mem _ hmem)
  -- nobody is taken anywhere while the map has its turn, and what waits is nowhere looked at
  exact ⟨hcarried.takes, hcarried.settles, hcarried.takesNot, hcarried.nowhere, hcarried.told⟩

/-- In a tick of a world for which nothing waits, let a map have its turn, and let no entity be refused
for want of a public id when the changes are carried out that wait after the turn. Then every player that
was in gates of the map after it had moved is taken through them in their order, once through each that
leads to a place that exists. It stands where the last of them leads, and has been told of each. All
others are where they were, and nobody is taken anywhere else. -/
theorem gates_of_reaches (h : Reaches perform Permits (empty config atlas) w) (hidle : w.deferred = [])
    (hlt : w.tick.2.issued < UInt32.size) (hturn : .turn v g ∈ w.moments) (report : TickReport)
    (hroom : ∀ u id map p, .change u (.warp id map p) ∈ passMoments g.id (report, v) →
      (u.warp id map p).1 ≠ .error (.insertion (.noPublicId id map))) :
    let moments := passMoments g.id (report, v)
    let u := (v.passRegion g report).2
    let v' := (passMap g.id (report, v)).2
    (∃ before after, w.moments = before ++ moments ++ after) ∧
    (∀ id p, g.advance.find? id = some p → p.isPlayer = true →
      u.Finds g.id id p.clearChanges ∧
      moments.filterMap (Moment.takes? id) = route atlas g p ∧
      (∃ m o, p.clearChanges.Settles g.id (route atlas g p) m o ∧
        ∀ m' o', v'.Finds m' id o' ↔ m' = m ∧ o' = o) ∧
      ∃ sent, v'.messagesFor id = u.messagesFor id ++ sent ∧
        sent.filter (fun message => message.opcode = Opcode.mapChange) =
          (route atlas g p).filterMap fun s => (mapNotice (w.mapTitle s.map) s.point).toOption) ∧
    ∀ id, (∀ p, g.advance.find? id = some p → p.isPlayer = true → route atlas g p = []) →
      moments.filterMap (Moment.takes? id) = [] ∧
      ∀ m o, v'.Finds m id o ↔ u.Finds m id o := by
  intro moments u v'
  have hle := Nat.lt_of_le_of_lt w.develops_tick_ofTick.issued_le hlt
  obtain ⟨hw, hkept, hatlas⟩ := sound_of_performed h
  have hw := hw hle
  -- the world in which the map has its turn
  obtain ⟨hdev, m, hg⟩ := develops_of_turn hturn
  obtain ⟨hv, hu, hult⟩ := hw.of_turn hlt hturn report
  obtain ⟨rfl, hsound⟩ := hv.region hg
  have hstart : { w with ticks := w.ticks + 1 }.deferred = [] := hidle
  obtain ⟨hv_idle, m', hm', hpass⟩ := exists_pass_of_restMoments hstart hturn
  obtain rfl : m' = g.id := (hv.region hm').1.symm
  -- the world in which the changes are carried out
  obtain ⟨hu_kept, hu_atlas⟩ := hkept.develops hatlas (hdev.trans (.single (.turns hg report trivial)))
  have hconveys : Conveys u (itinerary atlas (v.worked g).deferred) moments v' :=
    hv.conveys_passMap hg hv_idle hu hult hu_kept hu_atlas hroom
  refine ⟨hpass report, fun id p hp hplayer => ?_, fun id hid =>
    hconveys.stays hu (itinerary_worked_eq_nil hsound hv_idle hid)⟩
  have hworked : (v.worked g).region.find? id = some p := (v.outgrows_worked g).stays id p hp
  have hfinds : u.Finds g.id id p.clearChanges :=
    (finds_turn_iff rfl report).mpr (.inr ⟨rfl, p, hworked, rfl⟩)
  have hroute : itinerary atlas _ id = route atlas g p := itinerary_worked hsound hv_idle hp hplayer
  obtain ⟨m, o, hsettles, hends⟩ := hconveys.settles g.id id _ hfinds
  obtain ⟨sent, hout, hsent⟩ := hconveys.told
  refine ⟨hfinds, by rw [hconveys.takes g.id id _ hfinds, hroute],
    ⟨m, o, hroute ▸ hsettles, hends⟩, _, messagesFor_append hout id, ?_⟩
  have hclear : p.clearChanges.isPlayer = true := hplayer
  have htitle (m : MapId) : u.mapTitle m = w.mapTitle m := by
    rw [mapTitle, mapTitle, hu_atlas, hatlas]
  rw [hsent g.id id _ hfinds, if_pos hclear, hroute]
  simp only [htitle]

/-! ### An example -/

/-- Ann and Ben stand where the ferry leaves, and a tick takes them across. -/
theorem gates_at_quay : ∃ v g o, .turn v g ∈ quay.moments ∧
    (passMap ⟨1⟩ ({ tick := 1 }, v)).2.Finds ⟨2⟩ (.nth 1) o ∧ o.position = ⟨320, 320⟩ := by
  have hreach : Reaches perform Permits (empty {} ferry) quay :=
    Reaches.foldl _ _ (by simp [Permits, Allows])
  let v : World := { quay with ticks := 1 }
  have hfacts : (quay.deferred, quay.tick.2.issued, quay.ticks, quay.regions.keys) =
      ([], 2, 0, [⟨1⟩]) := by cbv
  simp only [Prod.mk.injEq] at hfacts
  obtain ⟨hidle, hissued, hticks, hkeys⟩ := hfacts
  have hquay : (v.region? ⟨1⟩).bind (fun g => (g.advance.find? (.nth 1)).map fun p =>
      (g.id, p.isPlayer, route ferry g p)) = some (⟨1⟩, true, [⟨⟨2⟩, ⟨320, 320⟩⟩]) := by cbv
  obtain ⟨g, hg, hquay⟩ := Option.bind_eq_some_iff.mp hquay
  obtain ⟨p, hp, hquay⟩ := Option.map_eq_some_iff.mp hquay
  simp only [Prod.mk.injEq] at hquay
  obtain ⟨hid, hplayer, hroute⟩ := hquay
  have hturn : Moment.turn v g ∈ quay.moments := by
    have hpass : passMoments ⟨1⟩ ({ tick := 1 }, v) =
        .turn v g :: (v.passRegion g { tick := 1 }).2.settleMoments := by rw [passMoments, hg]
    rw [moments, hticks, hkeys, restMoments]
    show Moment.turn v g ∈ passMoments ⟨1⟩ ({ tick := 1 }, v) ++ _
    rw [hpass]
    exact List.mem_append_left _ List.mem_cons_self
  -- both come across
  have hok : (passMoments ⟨1⟩ ({ tick := 1 }, v)).all (fun
      | .change u (.warp id map p) => (u.warp id map p).1.isOk
      | _ => true) = true := by cbv
  obtain ⟨-, hplayers, -⟩ := gates_of_reaches hreach hidle (by rw [hissued]; decide) hturn
    { tick := 1 } fun u id map p hmem herr => by
      rw [hid] at hmem
      have hcame := List.all_eq_true.mp hok _ hmem
      simp [herr, Except.isOk, Except.toBool] at hcame
  obtain ⟨-, -, ⟨m, o, hsettles, hends⟩, -⟩ := hplayers (.nth 1) p hp hplayer
  rw [hroute] at hsettles
  obtain ⟨rfl, x, rfl⟩ := hsettles
  rw [hid] at hends
  exact ⟨v, g, _, hturn, (hends _ _).mpr ⟨rfl, rfl⟩, rfl⟩

end World

end TileWorld
