import TileWorld.Geometry.Point
import TileWorld.Wire.Opcode
import TileWorld.Wire.Reader

/-!
# Requests

What a client can ask for, and how it is written on the wire. Reading a request passes over bytes
that follow it.
-/

namespace TileWorld

/-- A client's request. -/
inductive Request where
  /-- To take control of a character. -/
  | enter (name : String)
  /-- To give the character up. -/
  | leave
  /-- To walk to a point. -/
  | walk (destination : Point)
  /-- To attack. -/
  | attack
  /-- To speak. -/
  | say (text : String)
deriving DecidableEq, Inhabited

namespace Request

/-- The opcode of a request. -/
def opcode : Request → UInt16
  | enter _ => Opcode.enterWorld
  | leave => Opcode.leaveWorld
  | walk _ => Opcode.walk
  | attack => Opcode.attack
  | say _ => Opcode.say

/-- The fields of a request. -/
def fields : Request → List Field
  | enter name => [.text name]
  | leave => []
  | walk p => [.coordinates p.x p.y]
  | attack => []
  | say text => [.text text]

/-- The message that makes a request. -/
def encode (q : Request) : Except WireError Message := Message.ofFields q.opcode q.fields

/-- The request that a frame makes. -/
def decode (frame : Bytes) : Except WireError Request :=
  match Reader.ofFrame frame with
  | .error e => .error e
  | .ok r =>
    if r.opcode = Opcode.enterWorld then r.text.1.map enter
    else if r.opcode = Opcode.leaveWorld then .ok leave
    else if r.opcode = Opcode.walk then r.coordinates.1.map fun p => walk ⟨p.1, p.2⟩
    else if r.opcode = Opcode.attack then .ok attack
    else if r.opcode = Opcode.say then r.text.1.map say
    else .error (.unknownMessage r.opcode)

end Request

end TileWorld
