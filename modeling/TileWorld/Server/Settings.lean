import TileWorld.Net.AddressReader

/-!
# Settings

What can be set about a server from its environment. A setting that is not there, or that cannot
be read, keeps its default.
-/

namespace TileWorld

/-- The version of the server. -/
def version : String := "0.1.0"

/-- The usual number of ticks in a second. -/
def usualTickRate : UInt32 := 10

/-- What can be set about a server. -/
structure Settings where
  /-- Where clients find the server. -/
  bind : SocketAddress := .v4 ⟨0, 0, 0, 0⟩ 9601
  /-- The greatest number of clients at a time. -/
  maxConnections : Nat := 1000
  /-- How many ticks there are in a second. -/
  tickRate : UInt32 := usualTickRate
  /-- The file with the catalog, if there is one. -/
  catalog : Option String := none
  /-- The version of the server. -/
  version : String := TileWorld.version
deriving DecidableEq, Inhabited

namespace Settings

/-- The settings that an environment asks for. A tick rate of zero cannot be had. -/
def ofEnvironment (env : String → Option String) : Settings where
  bind := ((env "SERVER_BIND_ADDR").bind SocketAddress.parse?).getD ({} : Settings).bind
  maxConnections := ((env "SERVER_MAX_CONNECTIONS").bind (unsigned? (UInt64.size - 1))).getD
    ({} : Settings).maxConnections
  tickRate :=
    match (env "SERVER_TICK_RATE").bind (unsigned? (UInt32.size - 1)) with
    | some (rate + 1) => UInt32.ofNat (rate + 1)
    | _ => ({} : Settings).tickRate
  catalog := env "SERVER_MAP_CATALOG"

/-- How long a tick takes, in microseconds: at least one, however many there are in a second. -/
def tickMicroseconds (s : Settings) : Nat := max (1000000 / max s.tickRate.toNat 1) 1

end Settings

end TileWorld
