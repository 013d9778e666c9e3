import TileWorld.Net.Address
import TileWorld.World.Delivery

/-!
# Sessions

Which client is connected, which character it controls, and which client a message goes to. Each
direction has a table of its own. A client is known by its address. Its outgoing channel is open
until its reading end is given up; nothing goes out through a closed channel.
-/

namespace TileWorld

/-- A client, by its address. -/
abbrev ConnectionId := SocketAddress

/-- Why a character could not be given to a client. -/
inductive SessionError where
  /-- The client is not connected. -/
  | unknownConnection
  /-- The client has a character already. -/
  | alreadyInWorld
  /-- Another client has the character. -/
  | entityTaken
deriving DecidableEq, Inhabited

/-- The wording of a session error. -/
def SessionError.message : SessionError → String
  | unknownConnection => "Connection not registered"
  | alreadyInWorld => "Connection already controls a character"
  | entityTaken => "Entity already controlled by another connection"

/-- A client that is connected. -/
structure Session where
  /-- The character that the client controls. -/
  entity : Option EntityId := none
  /-- Messages can still go out. -/
  isOpen : Bool := true
deriving DecidableEq, Inhabited

/-- A message that went out to a client, as bytes. -/
structure SentFrame where
  /-- The client. -/
  connection : ConnectionId
  /-- The bytes. -/
  frame : Bytes
deriving DecidableEq, Inhabited

/-- All clients that are connected. -/
structure Registry where
  /-- The clients. -/
  sessions : Table ConnectionId Session := ∅
  /-- The client that controls a character. -/
  controllers : Table EntityId ConnectionId := ∅
deriving Inhabited

namespace Registry

/-- How many clients there are. -/
def size (r : Registry) : Nat := r.sessions.size

/-- There are no clients. -/
def isEmpty (r : Registry) : Bool := r.sessions.isEmpty

/-- The character that a client controls. -/
def entityOf (r : Registry) (c : ConnectionId) : Option EntityId := r.sessions[c]? >>= Session.entity

/-- The client that controls a character. -/
def connectionOf (r : Registry) (e : EntityId) : Option ConnectionId := r.controllers[e]?

/-- The table of who controls a character, without one character. -/
def forget (controllers : Table EntityId ConnectionId) (e : Option EntityId) :
    Table EntityId ConnectionId :=
  e.elim controllers controllers.erase

/-- A client connects, with a new channel. If it was connected already it gives its character
up. -/
def register (r : Registry) (c : ConnectionId) : Registry where
  sessions := r.sessions.insert c {}
  controllers := forget r.controllers (r.entityOf c)

/-- A client goes away. Gives the character that it controlled. -/
def unregister (r : Registry) (c : ConnectionId) : Option EntityId × Registry :=
  (r.entityOf c, ⟨r.sessions.erase c, forget r.controllers (r.entityOf c)⟩)

/-- Gives a client control of a character. -/
def bind (r : Registry) (c : ConnectionId) (e : EntityId) : Except SessionError Registry :=
  -- a character that is taken is refused before anything is asked of the client
  if r.controllers.contains e then .error .entityTaken
  else
    match r.sessions[c]? with
    | none => .error .unknownConnection
    | some s =>
      if s.entity.isSome then .error .alreadyInWorld
      else .ok ⟨r.sessions.insert c { s with entity := some e }, r.controllers.insert e c⟩

/-- Takes its character from a client. Gives the character. -/
def unbind (r : Registry) (c : ConnectionId) : Option EntityId × Registry :=
  (r.entityOf c, ⟨r.sessions.modify c fun s => { s with entity := none },
    forget r.controllers (r.entityOf c)⟩)

/-- Takes a character from whoever controls it. Gives the client, which stays connected. -/
def release (r : Registry) (e : EntityId) : Option ConnectionId × Registry :=
  match r.connectionOf e with
  | none => (none, r)
  | some c => (some c, ⟨r.sessions.modify c fun s => { s with entity := none },
      r.controllers.erase e⟩)

/-- The reading end of a client's channel is given up. -/
def close (r : Registry) (c : ConnectionId) : Registry :=
  { r with sessions := r.sessions.modify c fun s => { s with isOpen := false } }

/-- A message can go out to a client. -/
def accepts (r : Registry) (c : ConnectionId) : Bool := (r.sessions[c]?.map Session.isOpen).getD false

/-- Sends a message to a client; what goes out is what the client's channel accepts. -/
def send (r : Registry) (c : ConnectionId) (frame : Bytes) : List SentFrame :=
  if r.accepts c then [⟨c, frame⟩] else []

/-- Sends messages from a world to the clients of their recipients, in order. Messages for
characters that nobody controls are dropped. -/
def deliver (r : Registry) (ds : List Delivery) : List SentFrame :=
  ds.flatMap fun d => (r.connectionOf d.recipient).elim [] fun c => r.send c d.message.bytes

end Registry

end TileWorld
