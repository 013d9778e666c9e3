import TileWorld.Reach
import TileWorld.Server.Basic

/-!
# What can happen to a server

Everything that comes to a server from outside, as data, with what the server sends out in return.
-/

namespace TileWorld

namespace Server

/-- Something that comes to a server. -/
inductive Event where
  /-- A client connects. -/
  | connect (c : ConnectionId)
  /-- The reading end of a client's channel is given up. -/
  | close (c : ConnectionId)
  /-- A frame comes in. -/
  | frame (c : ConnectionId) (bytes : Bytes)
  /-- A client goes away. -/
  | disconnect (c : ConnectionId)
  /-- A tick passes. -/
  | tick
deriving DecidableEq, Inhabited

/-- What a server sends out when something comes to it, and the server after that. -/
def handle (s : Server) : Event → List SentFrame × Server
  | .connect c => ([], s.connect c)
  | .close c => ([], s.close c)
  | .frame c bytes => s.handleFrame c bytes
  | .disconnect c => s.disconnect c
  | .tick => s.tick.2

/-- A client that connects was not connected. -/
def Admits (s : Server) : Event → Prop
  | .connect c => s.sessions.sessions[c]? = none
  | _ => True

/-- A server before anything has come to it. -/
def fresh (config : WorldConfig) (atlas : Atlas) : Server := { world := .empty config atlas }

/-- The servers that can come about from `s`. -/
def Becomes (s : Server) : Server → Prop := Reaches (fun s e => (s.handle e).2) Admits s

end Server

end TileWorld
