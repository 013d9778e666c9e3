import TileWorld.Client.Reply
import TileWorld.Visibility.Notice

/-!
# Notifications

What a client learns from the frames it gets. For each message that a server sends there is a
statement about what the client reads from it, such as `decode_leaveNotice` and
`decode_moveNotice`.
-/

namespace TileWorld

/-- How a being looks to a client. -/
inductive Appearance where
  /-- A player's character. -/
  | character (looks : Looks)
  /-- Something else, by the number of its kind and its sort. -/
  | creature (code : UInt8) (sort : UInt16)
deriving DecidableEq, Inhabited

/-- How an entity looks to a client. -/
def EntityKind.appearance : EntityKind → Appearance
  | item sort => .creature (item sort).code sort
  | player looks => .character looks
  | monster sort mind => .creature (monster sort mind).code sort
  | npc sort => .creature (npc sort).code sort

/-- What a client learns from a frame. -/
inductive Notification where
  /-- It is on a map. -/
  | map (title : String) (position : Point)
  /-- Its request to enter is answered. -/
  | reply (status : UInt8) (being : PublicId)
  /-- A being came into view. -/
  | enter (being : PublicId) (appearance : Appearance)
  /-- A being went out of view. -/
  | leave (being : PublicId)
  /-- Beings moved. -/
  | move (entries : List MoveEntry)
  /-- A being attacked. -/
  | attack (being : PublicId)
  /-- Something was said. -/
  | chat (speaker : PublicId) (text : String)
deriving DecidableEq, Inhabited

namespace Notification

/-- Reads the looks of a player's character. -/
def readLooks : Read Looks := do
  return {
    name := ← Reader.text
    hairStyle := ← Reader.byte
    hairColor := ← Reader.byte
    gender := ← Reader.byte }

/-- Reads a public id. -/
def readId : Read PublicId := PublicId.mk <$> Reader.short

/-- Reads how a being looks and which one it is. -/
def readEnter : Read Notification := do
  let code ← Reader.byte
  let being ← readId
  if code = 1 then return enter being (.character (← readLooks))
  else return enter being (.creature code (← Reader.short))

/-- Reads the rest of a frame with a given opcode. -/
def read (opcode : UInt16) : Read Notification :=
  if opcode = Opcode.mapChange then do
    let title ← Reader.text
    let (x, y) ← Reader.coordinates
    let _ ← Reader.byte
    return map title ⟨x, y⟩
  else if opcode = Opcode.enterReply then do return reply (← Reader.byte) (← readId)
  else if opcode = Opcode.beingEnter then readEnter
  else if opcode = Opcode.beingLeave then leave <$> readId
  else if opcode = Opcode.beingsMove then move <$> Read.toEnd MoveEntry.read
  else if opcode = Opcode.beingAttack then attack <$> readId
  else if opcode = Opcode.chat then do return chat (← readId) (← Reader.text)
  else fun r => (.error (.unknownMessage opcode), r)

/-- What a client learns from a frame. -/
def decode (frame : Bytes) : Except WireError Notification :=
  match Reader.ofFrame frame with
  | .error e => .error e
  | .ok r => (read r.opcode r).1

/-! ### What a client reads from each message -/

theorem decode_bytes (m : Message) :
    decode m.bytes = (read m.opcode ⟨m.opcode, headerSize, m.payload⟩).1 := by
  simp [decode]

/-- What a client reads from a message whose payload reads back. -/
theorem decode_of_readsBack {m : Message} {n : Notification}
    (h : Read.ReadsBack (read m.opcode) n m.payload) : decode m.bytes = .ok n := by
  have := h m.opcode headerSize []
  rw [List.append_nil] at this
  rw [decode_bytes, this]

theorem readsBack_readId (being : PublicId) :
    Read.ReadsBack readId being (Field.ofShort being.val) := by
  intro op off rest
  simp [readId]

theorem decode_leaveNotice (being : PublicId) :
    decode (leaveNotice being).bytes = .ok (.leave being) :=
  decode_of_readsBack ((readsBack_readId being).map leave)

theorem decode_attackNotice (being : PublicId) :
    decode (attackNotice being).bytes = .ok (.attack being) :=
  decode_of_readsBack ((readsBack_readId being).map attack)

/-- A notice of movement is read as its entries. -/
theorem decode_moveNotice (ms : List MoveEntry) :
    decode (MoveEntry.notice ms).bytes = .ok (.move ms) := by
  rw [decode_bytes]
  show ((move <$> Read.toEnd MoveEntry.read : Read Notification)
    ⟨_, _, ms.flatMap MoveEntry.bytes⟩).1 = _
  rw [Read.map_apply, MoveEntry.toEnd_read]

theorem decode_enterReply (status : UInt8) (being : Option PublicId) :
    decode (enterReply status being).bytes = .ok (.reply status (being.getD .nobody)) := by
  refine decode_of_readsBack fun op off rest => ?_
  show (do return reply (← Reader.byte) (← readId) : Read Notification)
    ⟨op, off, status :: Field.ofShort (being.getD .nobody).val ++ rest⟩ = _
  simp [readsBack_readId _ op, enterReply, PublicId.wire]

theorem decode_mapNotice {title : String} {p : Point} {m : Message} (h : mapNotice title p = .ok m) :
    decode m.bytes = .ok (.map title p) := by
  obtain ⟨hs, rfl⟩ := mapNotice_eq_ok_iff.mp h
  refine decode_of_readsBack fun op off rest => ?_
  show (do
      let title ← Reader.text
      let (x, y) ← Reader.coordinates
      let _ ← Reader.byte
      return map title ⟨x, y⟩ : Read Notification) _ = _
  simp [Read.readsBack_text hs op off, List.append_assoc]
  congr 2

theorem decode_chatNotice {speaker : Option PublicId} {text : String} {m : Message}
    (h : chatNotice speaker text = .ok m) :
    decode m.bytes = .ok (.chat (speaker.getD .nobody) text) := by
  obtain ⟨hs, rfl⟩ := chatNotice_eq_ok_iff.mp h
  refine decode_of_readsBack ?_
  exact (readsBack_readId _).bind ((Read.readsBack_text hs).map _)

/-- The notice that a being comes into view is read as what it looks like. -/
theorem decode_enterNotice {e : Entity} {being : PublicId} {m : Message}
    (h : e.enterNotice being = .ok m) : decode m.bytes = .ok (.enter being e.kind.appearance) := by
  obtain ⟨hs, rfl⟩ := Entity.enterNotice_eq_ok_iff.mp h
  refine decode_of_readsBack fun op off rest => ?_
  show readEnter _ = _
  cases hk : e.kind with
  | player looks =>
    simp [readEnter, readLooks, readsBack_readId _ op, EntityKind.code, EntityKind.looksBytes,
      EntityKind.appearance, List.append_assoc, Read.readsBack_text (hs looks hk) op]
    congr 2
    omega
  | _ =>
    simp [readEnter, readsBack_readId _ op, EntityKind.code, EntityKind.looksBytes,
      EntityKind.appearance, List.append_assoc]

end Notification

end TileWorld
