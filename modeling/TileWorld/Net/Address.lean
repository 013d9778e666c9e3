import TileWorld.Table
import TileWorld.Text.Hex

/-!
# Socket addresses

Internet addresses of both versions, each with a port, and how they are written. An address of
version 6 is written in hexadecimal groups; the longest run of at least two zero groups, the first
one of several, is left out, and an address of version 4 inside one of version 6 keeps its own
form.
-/

namespace TileWorld

open Std

/-- An address of version 4. -/
structure Ipv4 where
  /-- First part. -/
  a : UInt8
  /-- Second part. -/
  b : UInt8
  /-- Third part. -/
  c : UInt8
  /-- Fourth part. -/
  d : UInt8
deriving DecidableEq, Inhabited

/-- An address of version 6, as eight groups. -/
structure Ipv6 where
  /-- First group. -/
  g0 : UInt16
  /-- Second group. -/
  g1 : UInt16
  /-- Third group. -/
  g2 : UInt16
  /-- Fourth group. -/
  g3 : UInt16
  /-- Fifth group. -/
  g4 : UInt16
  /-- Sixth group. -/
  g5 : UInt16
  /-- Seventh group. -/
  g6 : UInt16
  /-- Eighth group. -/
  g7 : UInt16
deriving DecidableEq, Inhabited

/-- An address with a port. -/
inductive SocketAddress where
  /-- Version 4. -/
  | v4 (ip : Ipv4) (port : UInt16)
  /-- Version 6, with the number of its scope. -/
  | v6 (ip : Ipv6) (scope : UInt32) (port : UInt16)
deriving DecidableEq, Inhabited

/-! ### Writing -/

namespace Ipv4

/-- The parts of an address. -/
def parts (ip : Ipv4) : List UInt8 := [ip.a, ip.b, ip.c, ip.d]

/-- An address in writing: `127.0.0.1`. -/
def render (ip : Ipv4) : String := ".".intercalate (ip.parts.map fun n => toString n)

end Ipv4

/-- The longest run of zeros in a list, the first one of several, as its place and its length. -/
def longestZeroRun (gs : List UInt16) : Nat × Nat :=
  (List.range gs.length).foldl (fun best i =>
    let length := ((gs.drop i).takeWhile (· == 0)).length
    if length > best.2 then (i, length) else best) (0, 0)

namespace Ipv6

/-- The groups of an address. -/
def groups (ip : Ipv6) : List UInt16 :=
  [ip.g0, ip.g1, ip.g2, ip.g3, ip.g4, ip.g5, ip.g6, ip.g7]

/-- The address of version 4 inside an address of version 6, if it is there. -/
def mapped? (ip : Ipv6) : Option Ipv4 :=
  if ip.groups.take 6 = [0, 0, 0, 0, 0, 0xFFFF] then
    some ⟨(ip.g6 >>> 8).toUInt8, ip.g6.toUInt8, (ip.g7 >>> 8).toUInt8, ip.g7.toUInt8⟩
  else none

/-- Groups in writing, divided by colons. -/
def renderGroups (gs : List UInt16) : String := ":".intercalate (gs.map Hex.short)

/-- An address in writing. -/
def render (ip : Ipv6) : String :=
  match ip.mapped? with
  | some v4 => "::ffff:" ++ v4.render
  | none =>
    let (start, length) := longestZeroRun ip.groups
    if length > 1 then
      renderGroups (ip.groups.take start) ++ "::" ++ renderGroups (ip.groups.drop (start + length))
    else renderGroups ip.groups

end Ipv6

namespace SocketAddress

/-- An address with its port in writing: `127.0.0.1:80` or `[::1]:80`. -/
def render : SocketAddress → String
  | v4 ip port => ip.render ++ ":" ++ toString port
  | v6 ip scope port =>
    let zone := if scope = 0 then "" else "%" ++ toString scope
    "[" ++ ip.render ++ zone ++ "]:" ++ toString port

/-! ### Order -/

/-- The numbers of an address, in the order of their weight: the version first. -/
def weights : SocketAddress → List Nat
  | v4 ip port => 4 :: ip.parts.map UInt8.toNat ++ [port.toNat]
  | v6 ip scope port => 6 :: ip.groups.map UInt16.toNat ++ [port.toNat, scope.toNat]

/-- No two addresses are compared by the same numbers. -/
theorem weights_injective (p q : SocketAddress) (h : p.weights = q.weights) : p = q := by
  rcases p with ⟨⟨a, b, c, d⟩, port⟩ | ⟨⟨g0, g1, g2, g3, g4, g5, g6, g7⟩, scope, port⟩ <;>
    rcases q with ⟨⟨a', b', c', d'⟩, port'⟩ | ⟨⟨h0, h1, h2, h3, h4, h5, h6, h7⟩, scope', port'⟩ <;>
    simp [weights, Ipv4.parts, Ipv6.groups, UInt8.toNat_inj, UInt16.toNat_inj,
      UInt32.toNat_inj] at h ⊢
  · simp [h]
  · simp [h]

instance : Ord SocketAddress := ordBy weights
instance : TransOrd SocketAddress := inferInstanceAs (TransCmp (compareOn weights))
instance : LawfulEqOrd SocketAddress := lawfulEqCmp_compareOn weights_injective

end SocketAddress

end TileWorld
