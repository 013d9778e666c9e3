import TileWorld.Client.Scene
import TileWorld.Proofs.Local
import TileWorld.Visibility.Diff

/-!
# What a client makes of its news

In a tick a client gets the news about all the beings that concern it: first the notices about each
of them alone, then the common notice of movement. Since every being has its own public id, what
the client knows of a being afterwards depends on the news about that being only
(`Scene.getElem?_hear_of_mem`), and what it knows of anybody else stays as it was
(`Scene.getElem?_hear_of_forall_ne`).
-/

namespace TileWorld

/-! ### The news about one being -/

/-- What a client knows of a being once it has heard how the being moves. -/
def Sighting.heed (b : Sighting) (m : MoveEntry) : Sighting :=
  { lastMove := some m, destination := m.destination.or b.destination }

namespace Entity

/-- The news about a being whose name fits. -/
def news (e viewer : Entity) (range : UInt16) : News := (e.newsFor viewer range).toOption.getD {}

/-- What the notices about a being alone make of what a client knows of it. -/
def reappear (e viewer : Entity) (range : UInt16) (b : Option Sighting) : Option Sighting :=
  match e.wasSeenBy viewer range, e.isSeenBy viewer range with
  | false, false => b
  | true, false => none
  | false, true => some {}
  | true, true => b

/-- The entry about a being in the notice of movement. -/
def entryFor (e viewer : Entity) (range : UInt16) (x : PublicId) : Option MoveEntry :=
  match e.wasSeenBy viewer range, e.isSeenBy viewer range with
  | false, false => none
  | true, false => none
  | false, true => some (e.moveEntry x false)
  | true, true => if e.oldPosition = e.position then none else some (e.moveEntry x true)

variable {e viewer : Entity} {range : UInt16} {x : PublicId}

@[simp] theorem publicId_moveEntry (known : Bool) : (e.moveEntry x known).publicId = x := by
  rw [moveEntry]
  split <;> rfl

/-- An entry about a being names it. -/
theorem publicId_of_entryFor {m : MoveEntry} (h : e.entryFor viewer range x = some m) :
    m.publicId = x := by
  rw [entryFor] at h
  split at h
  · cases h
  · cases h
  · cases h
    exact publicId_moveEntry false
  · split at h <;> cases h
    exact publicId_moveEntry true

/-- The news about a being whose name fits can be written. -/
theorem newsFor_eq_ok (h : e.kind.NameFits) :
    e.newsFor viewer range = .ok (e.news viewer range) := by
  have hok : ∃ n, e.newsFor viewer range = .ok n := by
    rw [newsFor]
    rcases e.publicId with _ | x
    · exact ⟨_, rfl⟩
    · rcases e.wasSeenBy viewer range <;> rcases e.isSeenBy viewer range
      · exact ⟨_, rfl⟩
      · simp only [enterNotice_eq_ok_iff.mpr ⟨h, rfl⟩]
        exact ⟨_, rfl⟩
      · exact ⟨_, rfl⟩
      · exact ⟨_, rfl⟩
  obtain ⟨n, hn⟩ := hok
  rw [news, hn]
  rfl

/-- The news about a being tells of its movement as the notice of movement does. -/
theorem move_news (hx : e.publicId = some x) (h : e.kind.NameFits) :
    (e.news viewer range).move = e.entryFor viewer range x := by
  rw [news, newsFor, hx, entryFor]
  rcases e.wasSeenBy viewer range <;> rcases e.isSeenBy viewer range
  · rfl
  · simp only [enterNotice_eq_ok_iff.mpr ⟨h, rfl⟩]
    rfl
  · rfl
  · rfl

/-- Hearing that a being attacked changes nothing about the view. -/
theorem foldl_receive_attack (s : Scene) (p : Prop) [Decidable p] :
    (if p then [attackNotice x] else []).foldl Scene.receive s = s := by
  split
  · exact Scene.receive_attackNotice s x
  · rfl

/-- The notices about a being alone change what a client knows of that being. -/
theorem beings_notices (hx : e.publicId = some x) (h : e.kind.NameFits) (s : Scene) (k : PublicId) :
    ((e.news viewer range).notices.foldl Scene.receive s).beings[k]? =
      if x = k then e.reappear viewer range s.beings[k]? else s.beings[k]? := by
  rw [news, newsFor, hx, reappear]
  rcases e.wasSeenBy viewer range <;> rcases e.isSeenBy viewer range
  · simp only [Except.toOption, Option.getD_some, foldl_receive_attack, ite_self]
  · simp only [enterNotice_eq_ok_iff.mpr ⟨h, rfl⟩]
    show ((_ ++ [_]).foldl Scene.receive s).beings[k]? = _
    rw [List.foldl_append, foldl_receive_attack]
    show (s.receive _).beings[k]? = _
    rw [Scene.receive_enterNotice (enterNotice_eq_ok_iff.mpr ⟨h, rfl⟩)]
    exact (Table.getElem?_insert ..).trans (by simp only [eq_comm])
  · simp only [Except.toOption, Option.getD_some, List.foldl_append, foldl_receive_attack]
    show (s.receive _).beings[k]? = _
    rw [Scene.receive_leaveNotice]
    exact (Table.getElem?_erase ..).trans (by simp only [eq_comm])
  · simp only [Except.toOption, Option.getD_some, foldl_receive_attack, ite_self]

end Entity

/-! ### All the news -/

/-- What succeeds for each of a list succeeds for the list. -/
theorem mapM_eq_ok_map {α β ε : Type} {f : α → Except ε β} {h : α → β} {l : List α}
    (hf : ∀ a ∈ l, f a = .ok (h a)) : l.mapM f = .ok (l.map h) := by
  induction l with
  | nil => rfl
  | cons a l ih =>
    rw [List.mapM_cons, hf a List.mem_cons_self, ih fun b hb => hf b (List.mem_cons_of_mem _ hb)]
    rfl

namespace Region

/-- If all names fit, the news for a viewer can be written. -/
theorem diff_eq_ok {g : Region} {viewer : Entity} {range : UInt16}
    (h : ∀ e ∈ g.beingsConcerning viewer range, e.kind.NameFits) :
    g.diff viewer range = .ok (News.messages
      ((g.beingsConcerning viewer range).map fun e => e.news viewer range)) := by
  rw [diff, mapM_eq_ok_map fun e he => Entity.newsFor_eq_ok (h e he)]
  rfl

end Region

namespace Scene

/-- A client hears the news about some beings. -/
def hear (s : Scene) (viewer : Entity) (range : UInt16) (l : List Entity) : Scene :=
  (News.messages (l.map fun e => e.news viewer range)).foldl receive s

variable {viewer : Entity} {range : UInt16} {l : List Entity}

/-- First come the notices about each being alone, then the entries about how they move. -/
theorem hear_eq (s : Scene) :
    s.hear viewer range l =
      l.foldl (fun s e => ((e.news viewer range).move.elim s s.note))
        (l.foldl (fun s e => (e.news viewer range).notices.foldl receive s) s) := by
  have hmoves (s : Scene) (ms : List MoveEntry) :
      (if ms.isEmpty then [] else [MoveEntry.notice ms]).foldl receive s = ms.foldl note s := by
    rcases ms with _ | ⟨m, ms⟩
    · rfl
    · exact receive_moveNotice s (m :: ms)
  rw [hear, News.messages, List.foldl_append, hmoves, List.foldl_flatMap, List.foldl_map,
    List.foldl_filterMap, List.foldl_map]
  congr 1
  funext s e
  rcases (e.news viewer range).move <;> rfl

variable (viewer range) (hid : ∀ e ∈ l, ∃ x, e.publicId = some x) (hfits : ∀ e ∈ l, e.kind.NameFits)

include hid hfits

theorem actsOnKey_notices : ∀ e ∈ l, ActsOnKey (fun _ => True)
    (fun (s : Scene) e => (e.news viewer range).notices.foldl receive s)
    (fun s k => s.beings[k]?) Entity.publicId (fun e => e.reappear viewer range) e := by
  intro e he s _
  obtain ⟨x, hx⟩ := hid e he
  refine ⟨trivial, ?_⟩
  intro k
  simp only [Entity.beings_notices hx (hfits e he), hx, Option.some.injEq]

theorem actsOnKey_moves : ∀ e ∈ l, ActsOnKey (fun _ => True)
    (fun (s : Scene) e => (e.news viewer range).move.elim s s.note)
    (fun s k => s.beings[k]?) Entity.publicId
    (fun e b => (e.news viewer range).move.elim b fun m => b.map fun b => b.heed m) e := by
  intro e he s _
  obtain ⟨x, hx⟩ := hid e he
  refine ⟨trivial, ?_⟩
  intro k
  simp only [hx, Entity.move_news hx (hfits e he), Option.some.injEq]
  rcases hm : e.entryFor viewer range x with _ | m
  · simp only [Option.elim_none, ite_self]
  · obtain rfl := Entity.publicId_of_entryFor hm
    simp only [Option.elim_some, note, Table.getElem?_modify, @eq_comm _ m.publicId]
    rfl

/-- Of whom no news is heard, a client knows what it knew. -/
theorem getElem?_hear_of_forall_ne {k : PublicId} (hk : ∀ e ∈ l, e.publicId ≠ some k) (s : Scene) :
    (s.hear viewer range l).beings[k]? = s.beings[k]? := by
  rw [hear_eq]
  refine (look_foldl_of_forall_ne (actsOnKey_moves viewer range hid hfits) hk trivial).trans ?_
  exact look_foldl_of_forall_ne (actsOnKey_notices viewer range hid hfits) hk trivial

/-- What a client knows of a being after the news about it. -/
theorem getElem?_hear_of_mem (hdistinct : l.Pairwise fun e e' => e.publicId ≠ e'.publicId)
    {e : Entity} (he : e ∈ l) {x : PublicId} (hx : e.publicId = some x) (s : Scene) :
    (s.hear viewer range l).beings[x]? =
      (e.entryFor viewer range x).elim (e.reappear viewer range s.beings[x]?) fun m =>
        (e.reappear viewer range s.beings[x]?).map fun b => b.heed m := by
  rw [hear_eq, ← Entity.move_news hx (hfits e he)]
  have hnotices :
      (l.foldl (fun s e => (e.news viewer range).notices.foldl receive s) s).beings[x]? =
        e.reappear viewer range s.beings[x]? :=
    look_foldl_of_mem (actsOnKey_notices viewer range hid hfits) hdistinct he hx trivial
  rw [← hnotices]
  exact look_foldl_of_mem (actsOnKey_moves viewer range hid hfits) hdistinct he hx trivial

end Scene

end TileWorld
