import TileWorld.Entity.Basic
import TileWorld.Wire.Opcode
import TileWorld.Wire.Read

/-!
# Notices

What clients are told: that they are on a map, what is said, and what goes on around them. A being
came into view, one went out of view, one attacked, some moved. The notice of movement gathers an
entry for each being, and an entry carries the tile where the being is, the point to which it
walks, or both.

The main statement is `MoveEntry.toEnd_read`: the entries of a notice read back as they were.
-/

namespace TileWorld

/-- The notice that describes a being, under its public id, to a client that did not see it. -/
def Entity.enterNotice (e : Entity) (publicId : PublicId) : Except WireError Message :=
  Message.ofFields Opcode.beingEnter <| [.byte e.kind.code, .short publicId.val] ++
    match e.kind with
    | .player looks =>
      [.text looks.name, .byte looks.hairStyle, .byte looks.hairColor, .byte looks.gender]
    | .monster sort _ => [.short sort]
    | .npc sort => [.short sort]
    | .item sort => [.short sort]

/-- The notice that a being is out of sight. -/
def leaveNotice (publicId : PublicId) : Message :=
  ⟨Opcode.beingLeave, Field.ofShort publicId.val⟩

/-- The notice that a being attacked. -/
def attackNotice (publicId : PublicId) : Message :=
  ⟨Opcode.beingAttack, Field.ofShort publicId.val⟩

/-- The notice for a player that it is on a map, with the name of the map and the place. -/
def mapNotice (title : String) (p : Point) : Except WireError Message :=
  Message.ofFields Opcode.mapChange [.text title, .coordinates p.x p.y, .byte 0]

/-- The notice that someone, or a voice without a speaker, said something. -/
def chatNotice (speaker : Option PublicId) (text : String) : Except WireError Message :=
  Message.ofFields Opcode.chat [.short (PublicId.wire speaker), .text text]

/-! ### Which notices have a written form -/

/-- A map can be announced if its name fits. -/
theorem mapNotice_eq_ok_iff {title : String} {p : Point} {m : Message} :
    mapNotice title p = .ok m ↔ Field.Fits title ∧
      m = ⟨Opcode.mapChange, Field.textBytes title ++ (Field.ofCoordinates p.x p.y ++ [0])⟩ := by
  by_cases h : Field.Fits title <;>
    simp [mapNotice, Message.ofFields, Message.write, Field.encode, Field.ofText, h, Except.map,
      bind, Except.bind, pure, Except.pure, eq_comm]

/-- A text can be said if it fits. -/
theorem chatNotice_eq_ok_iff {speaker : Option PublicId} {text : String} {m : Message} :
    chatNotice speaker text = .ok m ↔ Field.Fits text ∧
      m = ⟨Opcode.chat, Field.ofShort (PublicId.wire speaker) ++ Field.textBytes text⟩ := by
  by_cases h : Field.Fits text <;>
    simp [chatNotice, Message.ofFields, Message.write, Field.encode, Field.ofText, h, Except.map,
      bind, Except.bind, pure, Except.pure, eq_comm]

/-- The bytes that show how a being looks. -/
def EntityKind.looksBytes : EntityKind → Bytes
  | item sort => Field.ofShort sort
  | player looks =>
    Field.textBytes looks.name ++ [looks.hairStyle, looks.hairColor, looks.gender]
  | monster sort _ => Field.ofShort sort
  | npc sort => Field.ofShort sort

/-- The name of a player's character fits; other beings have none. -/
def EntityKind.NameFits (k : EntityKind) : Prop := ∀ looks, k = player looks → Field.Fits looks.name

instance : DecidablePred EntityKind.NameFits
  | .player looks => decidable_of_iff (Field.Fits looks.name) (by simp [EntityKind.NameFits])
  | .item _ | .monster _ _ | .npc _ => isTrue (by simp [EntityKind.NameFits])

/-- A being can be announced if its name fits. -/
theorem Entity.enterNotice_eq_ok_iff {e : Entity} {publicId : PublicId} {m : Message} :
    e.enterNotice publicId = .ok m ↔ e.kind.NameFits ∧
      m = ⟨Opcode.beingEnter, e.kind.code :: (Field.ofShort publicId.val ++ e.kind.looksBytes)⟩ := by
  cases hk : e.kind with
  | player looks =>
    by_cases h : Field.Fits looks.name <;>
      simp [enterNotice, EntityKind.NameFits, EntityKind.looksBytes, hk, Message.ofFields,
        Message.write, Field.encode, Field.ofText, h, Except.map, bind, Except.bind, pure,
        Except.pure, eq_comm]
  | _ =>
    simp [enterNotice, EntityKind.NameFits, EntityKind.looksBytes, hk, Message.ofFields,
      Message.write, Field.encode, Except.map, bind, Except.bind, pure, Except.pure, eq_comm]

/-! ### Movement -/

/-- What a client is told about one being that moved. -/
structure MoveEntry where
  /-- The being. -/
  publicId : PublicId
  /-- The tile where it is, told of a being that still walks. -/
  tile : Option Tile
  /-- The point to which it walks. -/
  destination : Option Point
deriving DecidableEq, Inhabited

namespace MoveEntry

/-- The flags of an entry announce what it carries. -/
def flags (m : MoveEntry) : UInt8 :=
  (if m.tile.isSome then carriesTile else 0) + if m.destination.isSome then carriesDestination else 0

/-- The bytes of an entry. -/
def bytes (m : MoveEntry) : Bytes :=
  Field.ofShort m.publicId.val ++ [m.flags] ++
    m.tile.elim [] (fun c => Field.ofCoordinates c.col c.row) ++
    m.destination.elim [] fun p => Field.ofCoordinates p.x p.y

/-- The notice that beings moved. -/
def notice (ms : List MoveEntry) : Message := ⟨Opcode.beingsMove, ms.flatMap bytes⟩

/-! ### Reading entries -/

/-- Reads an entry. -/
def read : Read MoveEntry := do
  let publicId ← Reader.short
  let flags ← Reader.byte
  let tile ← Read.announced (flags &&& carriesTile != 0) Reader.coordinates
  let destination ← Read.announced (flags &&& carriesDestination != 0) Reader.coordinates
  return ⟨⟨publicId⟩, tile.map fun c => ⟨c.1, c.2⟩, destination.map fun p => ⟨p.1, p.2⟩⟩

/-- An entry reads back as it was written. -/
theorem readsBack_bytes (m : MoveEntry) : Read.ReadsBack read m m.bytes := by
  intro op off rest
  have h1 : (2 &&& 1 : UInt8) = 0 := by decide
  have h2 : (1 &&& 2 : UInt8) = 0 := by decide
  have h3 : ¬ (3 &&& 1 : UInt8) = 0 := by decide
  have h4 : ¬ (3 &&& 2 : UInt8) = 0 := by decide
  rcases m with ⟨⟨publicId⟩, _ | ⟨col, row⟩, _ | ⟨x, y⟩⟩ <;>
    simp [read, bytes, flags, Read.announced, carriesTile, carriesDestination,
      List.append_assoc, h1, h2, h3, h4]

/-- The entries of a notice read back as they were, and nothing is left. -/
theorem toEnd_read (op : UInt16) (off : Nat) (ms : List MoveEntry) :
    Read.toEnd read ⟨op, off, ms.flatMap bytes⟩ =
      (.ok ms, ⟨op, off + (ms.flatMap bytes).length, []⟩) :=
  Read.ReadsBack.toEnd readsBack_bytes (fun m => by simp [bytes]) op off ms

end MoveEntry

end TileWorld
