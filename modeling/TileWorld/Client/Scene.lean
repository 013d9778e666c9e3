import TileWorld.Client.Notification
import TileWorld.Table

/-!
# Scenes

What a client has in view. Going through the frames that it gets, a client keeps the beings that
came into view and have not gone out of it, and for each of them the last that it heard of how the
being moves. A client that comes onto a map begins anew.
-/

namespace TileWorld

/-- The tile of a being that an entry tells about: a being at rest is on the tile of the point
where it stands. -/
def MoveEntry.place (m : MoveEntry) : Option Tile := m.tile.or (m.destination.map Point.tile)

/-- What a client knows of a being in view. -/
structure Sighting where
  /-- The last entry about how it moves. -/
  lastMove : Option MoveEntry := none
  /-- The last point to which it was said to walk. -/
  destination : Option Point := none
deriving DecidableEq, Inhabited

/-- What a client has in view. -/
structure Scene where
  /-- The beings in view, with what the client knows of them. -/
  beings : Table PublicId Sighting := ∅
deriving Inhabited

namespace Scene

/-- A being is in view. -/
def Shows (s : Scene) (being : PublicId) : Prop := being ∈ s.beings

/-- The client hears how a being moves; of beings out of view it takes no notice. -/
def note (s : Scene) (m : MoveEntry) : Scene where
  beings := s.beings.modify m.publicId fun b =>
    { lastMove := some m, destination := m.destination.or b.destination }

/-- The client learns something. -/
def update (s : Scene) : Notification → Scene
  | .map _ _ => {}
  | .enter being _ => { beings := s.beings.insert being {} }
  | .leave being => { beings := s.beings.erase being }
  | .move entries => entries.foldl note s
  | .reply _ _ | .attack _ | .chat _ _ => s

/-- Something can be learned by a client with this view: whoever comes into view was not there,
and everyone else that is spoken of is. -/
def Expects (s : Scene) : Notification → Prop
  | .enter being _ => ¬ s.Shows being
  | .leave being => s.Shows being
  | .move entries => ∀ m ∈ entries, s.Shows m.publicId
  | .attack being => s.Shows being
  | .map _ _ | .reply _ _ | .chat _ _ => True

/-- The client gets a message. -/
def receive (s : Scene) (m : Message) : Scene :=
  match Notification.decode m.bytes with
  | .ok n => s.update n
  | .error _ => s

/-- What a client has in view that has got messages and nothing else. -/
def ofMessages (ms : List Message) : Scene := ms.foldl receive {}

/-! ### Who is in view -/

@[simp] theorem not_shows_empty (being : PublicId) : ¬ ({} : Scene).Shows being := by
  simp [Shows]

@[simp] theorem shows_note {s : Scene} {m : MoveEntry} {being : PublicId} :
    (s.note m).Shows being ↔ s.Shows being := by
  simp only [Shows, note, Std.ExtTreeMap.mem_modify]

@[simp] theorem shows_update_move {s : Scene} {ms : List MoveEntry} {being : PublicId} :
    (s.update (.move ms)).Shows being ↔ s.Shows being := by
  simp only [update]
  induction ms generalizing s with
  | nil => rfl
  | cons m ms ih => rw [List.foldl_cons, ih, shows_note]

@[simp] theorem shows_update_enter {s : Scene} {b being : PublicId} {a : Appearance} :
    (s.update (.enter b a)).Shows being ↔ being = b ∨ s.Shows being := by
  simp only [Shows, update, Table.mem_insert]

@[simp] theorem shows_update_leave {s : Scene} {b being : PublicId} :
    (s.update (.leave b)).Shows being ↔ being ≠ b ∧ s.Shows being := by
  simp only [Shows, update, Table.mem_erase]

/-! ### What messages do to the view -/

theorem receive_mapNotice {s : Scene} {title : String} {p : Point} {m : Message}
    (h : mapNotice title p = .ok m) : s.receive m = {} := by
  simp only [receive, Notification.decode_mapNotice h, update]

theorem receive_enterNotice {s : Scene} {e : Entity} {being : PublicId} {m : Message}
    (h : e.enterNotice being = .ok m) : s.receive m = s.update (.enter being e.kind.appearance) := by
  simp only [receive, Notification.decode_enterNotice h]

theorem receive_leaveNotice (s : Scene) (being : PublicId) :
    s.receive (leaveNotice being) = s.update (.leave being) := by
  simp only [receive, Notification.decode_leaveNotice]

theorem receive_moveNotice (s : Scene) (ms : List MoveEntry) :
    s.receive (MoveEntry.notice ms) = s.update (.move ms) := by
  simp only [receive, Notification.decode_moveNotice]

theorem receive_attackNotice (s : Scene) (being : PublicId) :
    s.receive (attackNotice being) = s := by
  simp only [receive, Notification.decode_attackNotice, update]

theorem receive_chatNotice {s : Scene} {speaker : Option PublicId} {text : String} {m : Message}
    (h : chatNotice speaker text = .ok m) : s.receive m = s := by
  simp only [receive, Notification.decode_chatNotice h, update]

theorem receive_enterReply (s : Scene) (status : UInt8) (being : Option PublicId) :
    s.receive (enterReply status being) = s := by
  simp only [receive, Notification.decode_enterReply, update]

end Scene

end TileWorld
