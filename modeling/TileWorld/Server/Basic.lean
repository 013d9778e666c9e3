import TileWorld.Client.Reply
import TileWorld.Client.Request
import TileWorld.Session.Registry
import TileWorld.World.Action
import TileWorld.World.Tick

/-!
# Servers

A server is a world and the clients who play in it. Everything that comes in from a client goes to
the world at once, and whatever the world has to say goes out right after.
-/

namespace TileWorld

/-- A world and the clients who play in it. -/
structure Server where
  /-- The world. -/
  world : World
  /-- The clients. -/
  sessions : Registry := {}

namespace Server

/-- Takes their clients from players whom the world has lost. -/
def releaseLost (s : Server) : Server :=
  let (lost, world) := s.world.takeLost
  { world, sessions := lost.foldl (fun r e => (r.release e).2) s.sessions }

/-- Sends out all that the world has to say, once lost players have been released. -/
def flush (s : Server) : List SentFrame × Server :=
  let s := s.releaseLost
  let (deliveries, world) := s.world.takeDeliveries
  (s.sessions.deliver deliveries, { s with world })

/-- A client connects. -/
def connect (s : Server) (c : ConnectionId) : Server :=
  { s with sessions := s.sessions.register c }

/-- The reading end of a client's channel is given up. -/
def close (s : Server) (c : ConnectionId) : Server :=
  { s with sessions := s.sessions.close c }

/-- The character of a client that went away leaves the world. -/
def dismiss (s : Server) (e : EntityId) : Server :=
  { s with world := (s.world.remove e .disconnect).elim s.world Prod.snd }

/-- A client asks to control a character. A client that is not connected gets none, and its
character leaves the world again. -/
def enter (s : Server) (c : ConnectionId) (name : String) : Message × Server :=
  if (s.sessions.entityOf c).isSome then (enterReply EnterStatus.alreadyIn.code none, s)
  else
    match s.world.enter name with
    | (.error _, world) => (enterReply EnterStatus.unknown.code none, { s with world })
    | (.ok (e, publicId), world) =>
      match s.sessions.bind c e with
      | .ok sessions => (enterReply EnterStatus.accepted.code (some publicId), { world, sessions })
      -- nobody would control the character
      | .error _ => (enterReply EnterStatus.alreadyIn.code none, { s with world }.dismiss e)

/-- A client asks something of the world for its character. What cannot be done is passed over. -/
def act (s : Server) (c : ConnectionId) (e : EntityId) : Request → Server
  | .walk p => { s with world := (s.world.setDestination e p).toOption.getD s.world }
  | .attack => { s with world := (s.world.attack e).toOption.getD s.world }
  | .say text => { s with world := ((s.world.say e text).toOption.map Prod.snd).getD s.world }
  | .leave => { s with sessions := (s.sessions.unbind c).2 }.dismiss e
  | .enter _ => s

/-- A frame comes in from a client. A frame that makes no request is passed over, and so is
everything but asking for a character from a client that controls none. -/
def handleFrame (s : Server) (c : ConnectionId) (frame : Bytes) : List SentFrame × Server :=
  match Request.decode frame with
  | .error _ => ([], s)
  | .ok (.enter name) =>
    let (reply, s) := s.enter c name
    let answer := s.sessions.send c reply.bytes
    let (sent, s) := s.flush
    (answer ++ sent, s)
  | .ok request =>
    match s.sessions.entityOf c with
    | none => ([], s)
    | some e => (s.act c e request).flush

/-- A client goes away, and its character leaves the world. -/
def disconnect (s : Server) (c : ConnectionId) : List SentFrame × Server :=
  let (e, sessions) := s.sessions.unregister c
  let s := { s with sessions }
  match e with
  | none => ([], s)
  | some e => (s.dismiss e).flush

/-- A tick of the world, after which everything goes out. -/
def tick (s : Server) : TickReport × List SentFrame × Server :=
  let (report, world) := s.world.tick
  let (sent, s) := { s with world }.flush
  (report, sent, s)

end Server

end TileWorld
