import TileWorld.Net.Address
import TileWorld.Text.Number

/-!
# Reading socket addresses

An address of version 4 is four numbers without leading zeros; one of version 6 is eight groups in
hexadecimal, in which `::` stands for as many zero groups as are missing and at least one, and the
last two groups may be written as an address of version 4. The port follows a colon, behind
brackets in version 6, where a scope may stand before the closing bracket.
-/

namespace TileWorld

namespace SocketAddress

/-- Reads a given character. -/
def readChar (c : Char) : List Char → Option (List Char)
  | [] => none
  | d :: rest => if d = c then some rest else none

/-- Reads a separator, except before the first of several parts. -/
def readSeparator (c : Char) (first : Bool) (cs : List Char) : Option (List Char) :=
  if first then some cs else readChar c cs

/-- Reads a number off the front of a text into a word. -/
def readWord {α : Type} (ofNat : Nat → α) (f : NumberForm) (cs : List Char) :
    Option (α × List Char) :=
  (f.read cs).map fun (n, rest) => (ofNat n, rest)

/-- Reads a part of an address of version 4. -/
def readPart : List Char → Option (UInt8 × List Char) :=
  readWord UInt8.ofNat { maxDigits := some 3, leadingZeros := false, max := 0xFF }

/-- Reads an address of version 4. -/
def readIpv4 (cs : List Char) : Option (Ipv4 × List Char) := do
  let (a, cs) ← readPart cs
  let (b, cs) ← readPart (← readChar '.' cs)
  let (c, cs) ← readPart (← readChar '.' cs)
  let (d, cs) ← readPart (← readChar '.' cs)
  return (⟨a, b, c, d⟩, cs)

/-- Reads a group of an address of version 6. -/
def readGroup : List Char → Option (UInt16 × List Char) :=
  readWord UInt16.ofNat { base := 16, maxDigits := some 4, max := 0xFFFF }

/-- Reads up to `limit` groups, as many as there are, and says whether the last two of them were
written as an address of version 4. -/
def readGroups : Nat → Bool → List Char → List UInt16 × Bool × List Char
  | 0, _, cs => ([], false, cs)
  | limit + 1, first, cs =>
    let ipv4 := if limit = 0 then none else readSeparator ':' first cs >>= readIpv4
    match ipv4 with
    | some (ip, cs) =>
      ([ip.a.toUInt16 <<< 8 ||| ip.b.toUInt16, ip.c.toUInt16 <<< 8 ||| ip.d.toUInt16], true, cs)
    | none =>
      match readSeparator ':' first cs >>= readGroup with
      | none => ([], false, cs)
      | some (g, cs) =>
        let (gs, embedded, cs) := readGroups limit false cs
        (g :: gs, embedded, cs)

/-- The address of version 6 with the given groups. -/
def ofGroups : List UInt16 → Option Ipv6
  | [g0, g1, g2, g3, g4, g5, g6, g7] => some ⟨g0, g1, g2, g3, g4, g5, g6, g7⟩
  | _ => none

/-- Reads an address of version 6. -/
def readIpv6 (cs : List Char) : Option (Ipv6 × List Char) := do
  let (head, embedded, cs) := readGroups 8 true cs
  if head.length = 8 then return (← ofGroups head, cs)
  -- an address of version 4 can only stand at the end
  else if embedded then none
  else
    let cs ← readChar ':' (← readChar ':' cs)
    -- at least one group is left to the two colons
    let (tail, _, cs) := readGroups (7 - head.length) true cs
    let zeros := List.replicate (8 - head.length - tail.length) 0
    return (← ofGroups (head ++ zeros ++ tail), cs)

/-- Reads a colon and a port. -/
def readPort (cs : List Char) : Option (UInt16 × List Char) := do
  readWord UInt16.ofNat { max := 0xFFFF } (← readChar ':' cs)

/-- Reads a percent sign and a scope. -/
def readScope (cs : List Char) : Option (UInt32 × List Char) := do
  readWord UInt32.ofNat { max := 0xFFFFFFFF } (← readChar '%' cs)

/-- Reads an address of version 4 with its port. -/
def readV4 (cs : List Char) : Option (SocketAddress × List Char) := do
  let (ip, cs) ← readIpv4 cs
  let (port, cs) ← readPort cs
  return (v4 ip port, cs)

/-- Reads an address of version 6 with its port. -/
def readV6 (cs : List Char) : Option (SocketAddress × List Char) := do
  let (ip, cs) ← readIpv6 (← readChar '[' cs)
  let (scope, cs) := (readScope cs).getD (0, cs)
  let (port, cs) ← readPort (← readChar ']' cs)
  return (v6 ip scope port, cs)

/-- The address that a whole text spells. -/
def parse? (s : String) : Option SocketAddress :=
  match (readV4 s.toList).or (readV6 s.toList) with
  | some (address, []) => some address
  | _ => none

end SocketAddress

end TileWorld
