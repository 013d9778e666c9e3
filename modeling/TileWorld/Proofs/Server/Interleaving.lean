import TileWorld.Proofs.Server.Authority

/-!
# Requests that come in any order

Who walks or attacks only does something to its own character, and nobody hears of it before the next
tick. So it makes no difference in which order such requests come in from several clients, as long as
the order for each client is the same (`Server.handleFrames_eq_of_becomes`), whether or not they can
be carried out. That two of them can be exchanged is `World.stir_comm`, and that this is enough for any
two orders is `foldl_eq_of_filter_eq`.
-/

namespace TileWorld

/-! ### Steps that can be exchanged -/

section Exchange

variable {σ κ ι : Type} {step : σ → κ → σ} {f : κ → ι} {I : σ → Prop} {Q : κ → Prop}

/-- A step can be taken before others that have other keys. -/
theorem foldl_append_cons (hI : ∀ s k, I s → Q k → I (step s k))
    (hcomm : ∀ s k k', I s → Q k → Q k' → f k ≠ f k' →
      step (step s k) k' = step (step s k') k)
    {k : κ} (hk : Q k) {ks : List κ} (hks : ∀ a ∈ ks, Q a ∧ f a ≠ f k) (rest : List κ) {s : σ}
    (hs : I s) : (ks ++ k :: rest).foldl step s = (ks ++ rest).foldl step (step s k) := by
  induction ks generalizing s with
  | nil => rfl
  | cons a ks ih =>
    obtain ⟨ha, hne⟩ := hks a List.mem_cons_self
    rw [List.cons_append, List.foldl_cons,
      ih (fun b hb => hks b (List.mem_cons_of_mem a hb)) (hI s a hs ha), hcomm s a k hs ha hk hne]
    rfl

/-- If steps with different keys can be exchanged then only the order of those with the same key
matters. -/
theorem foldl_eq_of_filter_eq [DecidableEq ι] (hI : ∀ s k, I s → Q k → I (step s k))
    (hcomm : ∀ s k k', I s → Q k → Q k' → f k ≠ f k' →
      step (step s k) k' = step (step s k') k)
    {ks ks' : List κ} (hks : ∀ k ∈ ks, Q k)
    (h : ∀ i, ks.filter (fun k => f k = i) = ks'.filter fun k => f k = i) {s : σ} (hs : I s) :
    ks.foldl step s = ks'.foldl step s := by
  induction ks generalizing s ks' with
  | nil =>
    rcases ks' with _ | ⟨k, ks'⟩
    · rfl
    · have hk := h (f k)
      simp at hk
  | cons k ks ih =>
    -- the first step is the first one with its key in the other order as well
    have hfirst := h (f k)
    rw [List.filter_cons_of_pos (by simp), eq_comm, List.filter_eq_cons_iff] at hfirst
    obtain ⟨before, after, rfl, hbefore, -, -⟩ := hfirst
    have hothers : ∀ a ∈ before, f a ≠ f k := fun a ha => by simpa using hbefore a ha
    have hmem (a : κ) (ha : a ∈ before) : Q a := by
      have hfilter : a ∈ (k :: ks).filter fun b => f b = f a := by
        rw [h (f a)]
        simp [ha]
      exact hks a (List.mem_filter.mp hfilter).1
    rw [foldl_append_cons hI hcomm (hks k List.mem_cons_self) (fun a ha => ⟨hmem a ha, hothers a ha⟩)
      after hs]
    refine ih (fun a ha => hks a (List.mem_cons_of_mem k ha)) (fun i => ?_)
      (hI s k hs (hks k List.mem_cons_self))
    have hi := h i
    simp only [List.filter_cons, List.filter_append] at hi ⊢
    by_cases hki : f k = i
    · subst hki
      have hnone : before.filter (fun a => f a = f k) = [] := by
        simpa [List.filter_eq_nil_iff] using hothers
      simpa [hnone] using hi
    · simpa [hki] using hi

end Exchange

/-! ### What an entity does where it is -/

/-- It makes no difference which of two entities is changed first. -/
theorem Region.modify_comm (g : Region) {id id' : EntityId} (hne : id ≠ id') (f f' : Entity → Entity) :
    (g.modify id f).modify id' f' = (g.modify id' f').modify id f := by
  have hmembers : (g.members.modify id f).modify id' f' = (g.members.modify id' f').modify id f := by
    refine Std.ExtTreeMap.ext_getElem? fun k => ?_
    simp only [Table.getElem?_modify]
    by_cases hk : k = id
    · subst hk
      simp [hne]
    · simp [hk]
  simp only [Region.modify, hmembers]

theorem Region.contains_modify (g : Region) (id k : EntityId) (f : Entity → Entity) :
    (g.modify id f).contains k = g.contains k := by
  rw [contains_eq_isSome, contains_eq_isSome, find?_modify]
  split
  · rw [Option.isSome_map]
  · rfl

/-- Something that an entity can do where it is: on which maps, and what becomes of the entity. -/
structure Deed where
  /-- The map allows it. -/
  allowed : Terrain → Bool
  /-- The entity after it. -/
  does : Entity → Entity

/-- To set out for a point. -/
def Deed.walk (p : Point) : Deed := ⟨fun t => t.contains p, fun e => e.walkTo p⟩

/-- To attack. -/
def Deed.attack : Deed := ⟨fun _ => true, fun e => e.raise { attack := true }⟩

namespace World

/-- An entity does something where it is, if it can. -/
def stir (w : World) (id : EntityId) (d : Deed) : World :=
  match w.regionOf id with
  | none => w
  | some g => if d.allowed g.terrain && g.contains id then w.setRegion (g.modify id d.does) else w

variable {w : World} {id id' : EntityId}

theorem getD_setDestination (w : World) (id : EntityId) (p : Point) :
    (w.setDestination id p).toOption.getD w = w.stir id (.walk p) := by
  rw [setDestination, stir, Deed.walk]
  rcases w.regionOf id with _ | g
  · rfl
  · cases hp : g.terrain.contains p <;> cases hid : g.contains id <;> simp [hp, hid, Except.toOption]

theorem getD_attack (w : World) (id : EntityId) :
    (w.attack id).toOption.getD w = w.stir id .attack := by
  rw [World.attack, stir, Deed.attack]
  rcases w.regionOf id with _ | g
  · rfl
  · cases hid : g.contains id <;> simp [hid, Except.toOption]

/-- Only the maps are concerned. -/
theorem stir_eq (w : World) (id : EntityId) (d : Deed) :
    w.stir id d = { w with regions := (w.stir id d).regions } := by
  rw [stir]
  split
  · rfl
  · split <;> rfl

theorem mapOf_stir (w : World) (id : EntityId) (d : Deed) (k : EntityId) :
    (w.stir id d).mapOf k = w.mapOf k := by
  rw [stir_eq]
  rfl

/-- A deed changes one entity on the map on which it is listed, if it may be done there. -/
theorem region?_stir (hw : w.Housed) (id : EntityId) (d : Deed) (m : MapId) :
    (w.stir id d).region? m = (w.region? m).map fun g =>
      if w.mapOf id = some m ∧ d.allowed g.terrain = true ∧ g.contains id = true then
        g.modify id d.does else g := by
  rw [stir, regionOf]
  rcases hmap : w.mapOf id with _ | map
  · simp
  rcases hg : w.region? map with _ | g
  · by_cases hm : map = m
    · subst hm
      simp [hg]
    · simp [hg, hm]
  · have hset : (w.setRegion (g.modify id d.does)).region? m =
        if m = map then some (g.modify id d.does) else w.region? m := by
      rw [← hw.id_eq hg]
      exact Table.getElem?_insert ..
    by_cases hm : map = m
    · subst hm
      cases hallowed : d.allowed g.terrain <;> cases hid : g.contains id <;>
        simp [hg, hset, hallowed, hid]
    · cases hallowed : d.allowed g.terrain <;> cases hid : g.contains id <;>
        simp [hg, hset, hallowed, hid, hm, Ne.symm hm]

theorem Housed.stir (hw : w.Housed) (id : EntityId) (d : Deed) : (w.stir id d).Housed := by
  rw [World.stir]
  split
  · exact hw
  · obtain ⟨map, -, hg⟩ := exists_region?_of_regionOf ‹_›
    split
    · exact hw.act hg id d.does
    · exact hw

/-- What two entities do where they are can be exchanged, whether or not they can do it. -/
theorem stir_comm (hw : w.Housed) (hne : id ≠ id') (d d' : Deed) :
    (w.stir id d).stir id' d' = (w.stir id' d').stir id d := by
  have hregions : ((w.stir id d).stir id' d').regions = ((w.stir id' d').stir id d).regions := by
    refine Std.ExtTreeMap.ext_getElem? fun m => ?_
    show ((w.stir id d).stir id' d').region? m = ((w.stir id' d').stir id d).region? m
    rw [region?_stir (hw.stir id d), region?_stir (hw.stir id' d'), region?_stir hw, region?_stir hw,
      mapOf_stir, mapOf_stir, Option.map_map, Option.map_map]
    congr 1
    funext g
    have hterrain (k : EntityId) (f : Entity → Entity) : (g.modify k f).terrain = g.terrain := rfl
    simp only [Function.comp]
    by_cases h : w.mapOf id = some m ∧ d.allowed g.terrain = true ∧ g.contains id = true <;>
      by_cases h' : w.mapOf id' = some m ∧ d'.allowed g.terrain = true ∧ g.contains id' = true <;>
      simp [h, h', hterrain, Region.contains_modify, g.modify_comm hne]
  rw [stir_eq (w.stir id d), stir_eq (w.stir id' d'), hregions, stir_eq w id, stir_eq w id']

end World

namespace Server

open World

variable {s : Server} {c c' : ConnectionId} {bytes bytes' : Bytes}

/-! ### Frames that say nothing -/

/-- The frame asks to walk or to attack, or it makes no request. -/
def Silent (bytes : Bytes) : Prop :=
  ∀ request, Request.decode bytes = .ok request → request = .attack ∨ ∃ p, request = .walk p

/-- What the character of a client is to do when a frame comes in. -/
def deed (bytes : Bytes) : Option Deed :=
  match Request.decode bytes with
  | .ok (.walk p) => some (.walk p)
  | .ok .attack => some .attack
  | _ => none

/-- The world when the character of a client has done what a frame asks for. -/
def stirred (s : Server) (c : ConnectionId) (bytes : Bytes) : World :=
  match s.sessions.entityOf c, deed bytes with
  | some e, some d => s.world.stir e d
  | _, _ => s.world

/-- If nothing waits to go out then nothing goes out. -/
theorem flush_of_settled (hs : s.Settled) : s.flush = ([], s) := by
  obtain ⟨⟨config, atlas, regions, locations, outbox, deferred, issued, ticks, lost, calls⟩,
    sessions⟩ := s
  obtain ⟨rfl, rfl⟩ : outbox = [] ∧ lost = [] := ⟨hs.outbox, hs.lost⟩
  rfl

/-- Nothing goes out for a silent frame, and the character does what the client asks for. -/
theorem handleFrame_of_silent (hs : s.Settled) (h : Silent bytes) (c : ConnectionId) :
    s.handleFrame c bytes = ([], { s with world := s.stirred c bytes }) := by
  have hsettled (e : EntityId) (d : Deed) : ({ s with world := s.world.stir e d } : Server).Settled := by
    refine ⟨?_, ?_⟩
    · rw [stir_eq]
      exact hs.outbox
    · rw [stir_eq]
      exact hs.lost
  rw [handleFrame, stirred, deed]
  rcases hask : Request.decode bytes with err | request
  · cases s.sessions.entityOf c <;> rfl
  · rcases he : s.sessions.entityOf c with _ | e <;> obtain rfl | ⟨p, rfl⟩ := h request hask
    · rfl
    · rfl
    · simp only [act, getD_attack, flush_of_settled (hsettled e _)]
    · simp only [act, getD_setDestination, flush_of_settled (hsettled e _)]

/-- Silent frames of two clients can be exchanged. -/
theorem stirred_comm (hs : s.sessions.Consistent) (hhoused : s.world.Housed) (hne : c ≠ c')
    (bytes bytes' : Bytes) :
    ({ s with world := s.stirred c bytes } : Server).stirred c' bytes' =
      ({ s with world := s.stirred c' bytes' } : Server).stirred c bytes := by
  simp only [stirred]
  rcases he : s.sessions.entityOf c with _ | e
  · rfl
  rcases he' : s.sessions.entityOf c' with _ | e'
  · rfl
  rcases deed bytes with _ | d
  · rfl
  rcases deed bytes' with _ | d'
  · rfl
  have hdistinct : e ≠ e' := by
    rintro rfl
    exact hne (hs.connection_eq he he')
  exact stir_comm hhoused hdistinct d d'

/-! ### Sequences of frames -/

/-- Frames come in from several clients, one after the other; gives what goes out meanwhile. -/
def handleFrames (s : Server) : List (ConnectionId × Bytes) → List SentFrame × Server
  | [] => ([], s)
  | (c, bytes) :: fs =>
    let (sent, s) := s.handleFrame c bytes
    let (sent', s) := s.handleFrames fs
    (sent ++ sent', s)

/-- Everything comes in that each client sends, in the order in which it sends it. -/
def Interleaves (F : ConnectionId → List Bytes) (fs : List (ConnectionId × Bytes)) : Prop :=
  ∀ c, (fs.filter fun f => f.1 = c).map Prod.snd = F c

/-- Of each client comes in what it sends, in its order. -/
theorem Interleaves.filter_eq {F : ConnectionId → List Bytes} {fs : List (ConnectionId × Bytes)}
    (h : Interleaves F fs) (c : ConnectionId) :
    (fs.filter fun f => f.1 = c) = (F c).map fun bytes => (c, bytes) := by
  rw [← h c, List.map_map]
  refine (List.map_id _).symm.trans (List.map_congr_left fun f hf => ?_)
  obtain ⟨-, hc⟩ := List.mem_filter.mp hf
  simp only [decide_eq_true_eq] at hc
  rw [← hc]
  rfl

/-- If all clients send silent frames then all frames that come in are silent. -/
theorem Interleaves.silent {F : ConnectionId → List Bytes} {fs : List (ConnectionId × Bytes)}
    (h : Interleaves F fs) (hF : ∀ c, ∀ bytes ∈ F c, Silent bytes) : ∀ f ∈ fs, Silent f.2 := by
  intro f hf
  refine hF f.1 f.2 ?_
  rw [← h f.1]
  exact List.mem_map.mpr ⟨f, List.mem_filter.mpr ⟨hf, by simp⟩, rfl⟩

/-- What is needed so that nobody hears of silent frames and they can be exchanged. -/
structure Still (s : Server) : Prop where
  settled : s.Settled
  consistent : s.sessions.Consistent
  housed : s.world.Housed

/-- A server in which nothing waits stays so when a silent frame comes in. -/
theorem Still.handleFrame (hs : s.Still) (c : ConnectionId) (bytes : Bytes) :
    (s.handleFrame c bytes).2.Still :=
  ⟨hs.settled.handle (.frame c bytes), (s.preserves_handle (.frame c bytes)).consistent hs.consistent,
    housed_handle hs.housed (.frame c bytes)⟩

/-- Silent frames send nothing out. -/
theorem handleFrames_of_silent (hs : s.Still) {fs : List (ConnectionId × Bytes)}
    (h : ∀ f ∈ fs, Silent f.2) :
    s.handleFrames fs = ([], fs.foldl (fun s f => (s.handleFrame f.1 f.2).2) s) := by
  induction fs generalizing s with
  | nil => rfl
  | cons f fs ih =>
    have hnothing : (s.handleFrame f.1 f.2).1 = [] := by
      rw [handleFrame_of_silent hs.settled (h f List.mem_cons_self)]
    have hcons : s.handleFrames (f :: fs) =
        ((s.handleFrame f.1 f.2).1 ++ ((s.handleFrame f.1 f.2).2.handleFrames fs).1,
          ((s.handleFrame f.1 f.2).2.handleFrames fs).2) := rfl
    rw [hcons, hnothing,
      ih (hs.handleFrame f.1 f.2) fun f' hf' => h f' (List.mem_cons_of_mem f hf')]
    rfl

/-- Silent frames of two clients can be exchanged. -/
theorem handleFrame_comm (hs : s.Still) (hne : c ≠ c') (h : Silent bytes) (h' : Silent bytes') :
    ((s.handleFrame c bytes).2.handleFrame c' bytes').2 =
      ((s.handleFrame c' bytes').2.handleFrame c bytes).2 := by
  have hfirst := (hs.handleFrame c bytes).settled
  have hfirst' := (hs.handleFrame c' bytes').settled
  rw [handleFrame_of_silent hs.settled h] at hfirst ⊢
  rw [handleFrame_of_silent hs.settled h'] at hfirst' ⊢
  rw [handleFrame_of_silent hfirst h', handleFrame_of_silent hfirst' h]
  simp only [stirred_comm hs.consistent hs.housed hne bytes bytes']

/-- Between two ticks, let each of any number of clients ask to walk and to attack as often as it
likes, and send frames that make no request. In whatever order this comes in, nothing goes out and
the server is the same in the end, and so is all that the next tick does and sends out. -/
theorem handleFrames_eq_of_becomes {config : WorldConfig} {atlas : Atlas} {w₀ : World} {s : Server}
    (h₀ : Reaches World.execute World.Allows (.empty config atlas) w₀) (houtbox : w₀.outbox = [])
    (hlost : w₀.lost = []) (h : Becomes { world := w₀ } s) {F : ConnectionId → List Bytes}
    (hF : ∀ c, ∀ bytes ∈ F c, Silent bytes) {fs fs' : List (ConnectionId × Bytes)}
    (hfs : Interleaves F fs) (hfs' : Interleaves F fs') :
    (s.handleFrames fs).1 = [] ∧ (s.handleFrames fs').1 = [] ∧
    (s.handleFrames fs).2.world = (s.handleFrames fs').2.world ∧
    (s.handleFrames fs).2.sessions = (s.handleFrames fs').2.sessions ∧
    (s.handleFrames fs).2.tick = (s.handleFrames fs').2.tick := by
  have hstill : s.Still :=
    ⟨Settled.becomes ⟨houtbox, hlost⟩ h, consistent_of_becomes h, housed_of_becomes h₀ h⟩
  have hsame : fs.foldl (fun s f => (s.handleFrame f.1 f.2).2) s =
      fs'.foldl (fun s f => (s.handleFrame f.1 f.2).2) s := by
    refine foldl_eq_of_filter_eq (f := Prod.fst) (I := Still) (Q := fun f => Silent f.2)
      (fun s f hs _ => hs.handleFrame f.1 f.2) (fun s f f' hs hf hf' hne => ?_) (hfs.silent hF)
      (fun c => ?_) hstill
    · exact handleFrame_comm hs hne hf hf'
    · rw [hfs.filter_eq, hfs'.filter_eq]
  rw [handleFrames_of_silent hstill (hfs.silent hF), handleFrames_of_silent hstill (hfs'.silent hF),
    hsame]
  exact ⟨rfl, rfl, rfl, rfl, rfl⟩

/-! ### An example -/

/-- One of two clients walks and attacks, and the other one attacks and sends something that makes no
request. -/
def bustle (c : ConnectionId) : List Bytes :=
  if c = home 1 then [asking (.walk ⟨1700, 1600⟩), asking .attack]
  else if c = home 2 then [asking .attack, []] else []

theorem silent_bustle (c : ConnectionId) : ∀ bytes ∈ bustle c, Silent bytes := by
  have hwalk : Request.decode (asking (.walk ⟨1700, 1600⟩)) = .ok (.walk ⟨1700, 1600⟩) := by cbv
  have hattack : Request.decode (asking .attack) = .ok .attack := by cbv
  have hnone : ∃ err, Request.decode [] = .error err := ⟨_, rfl⟩
  have hsilentWalk : Silent (asking (.walk ⟨1700, 1600⟩)) := by
    rintro request hask
    rw [hwalk] at hask
    cases hask
    exact .inr ⟨_, rfl⟩
  have hsilentAttack : Silent (asking .attack) := by
    rintro request hask
    rw [hattack] at hask
    cases hask
    exact .inl rfl
  have hsilentNone : Silent [] := by
    rintro request hask
    obtain ⟨err, herr⟩ := hnone
    rw [herr] at hask
    cases hask
  rw [bustle]
  split
  · simp [hsilentWalk, hsilentAttack]
  · split
    · simp [hsilentAttack, hsilentNone]
    · simp

/-- The two clients take turns. -/
def inTurns : List (ConnectionId × Bytes) :=
  [(home 1, asking (.walk ⟨1700, 1600⟩)), (home 2, asking .attack), (home 1, asking .attack),
    (home 2, [])]

/-- One client comes after the other. -/
def inBlocks : List (ConnectionId × Bytes) :=
  [(home 2, asking .attack), (home 2, []), (home 1, asking (.walk ⟨1700, 1600⟩)),
    (home 1, asking .attack)]

/-- The two clients send the same frames when they take turns as when one comes after the other. -/
theorem interleaves_bustle : Interleaves bustle inTurns ∧ Interleaves bustle inBlocks := by
  have hne : home 2 ≠ home 1 := by decide
  rw [Interleaves, Interleaves, ← forall_and]
  intro c
  by_cases h₁ : c = home 1
  · simp [bustle, inTurns, inBlocks, h₁, hne]
  · by_cases h₂ : c = home 2
    · simp [bustle, inTurns, inBlocks, h₂, hne, hne.symm]
    · simp [bustle, inTurns, inBlocks, h₁, h₂, Ne.symm h₁, Ne.symm h₂]

/-- It makes no difference whether the two clients take turns, and what they ask for is done. -/
theorem handleFrames_eq_at_company :
    (company.handleFrames inTurns).1 = [] ∧ (company.handleFrames inBlocks).1 = [] ∧
    (company.handleFrames inTurns).2.tick = (company.handleFrames inBlocks).2.tick ∧
    ((company.handleFrames inTurns).2.world.entity? (.nth 1)).map Entity.destination =
      some ⟨1700, 1600⟩ := by
  obtain ⟨hnothing, hnothing', -, -, htick⟩ := handleFrames_eq_of_becomes .refl rfl rfl becomes_company
    silent_bustle interleaves_bustle.1 interleaves_bustle.2
  have hdone : ((company.handleFrames inTurns).2.world.entity? (.nth 1)).map Entity.destination =
      some ⟨1700, 1600⟩ := by cbv
  exact ⟨hnothing, hnothing', htick, hdone⟩

end Server

end TileWorld
