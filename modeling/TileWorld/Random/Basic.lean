/-!
# Random streams

A random stream is two 64-bit words of state. Drawing gives the sum of the words and moves both on
by shifts, rotations and exclusive ors; a seed is spread over the two words by a mixing function
that loses nothing. All arithmetic is on words and wraps.
-/

namespace TileWorld

/-- The state of a random stream. -/
structure RandomStream where
  /-- The first word of state. -/
  s0 : UInt64
  /-- The second word of state. -/
  s1 : UInt64
deriving DecidableEq

namespace RandomStream

/-- A word turned left by `k` bits, for `k` between 1 and 63. -/
def rotateLeft (w k : UInt64) : UInt64 := w <<< k ||| w >>> (64 - k)

/-- The distance between two successive inputs of the mixing function. -/
def seedStride : UInt64 := 0x9E3779B97F4A7C15

/-- Spreads the bits of a word over the whole word. -/
def mix (z : UInt64) : UInt64 :=
  let z := (z ^^^ z >>> 30) * 0xBF58476D1CE4E5B9
  let z := (z ^^^ z >>> 27) * 0x94D049BB133111EB
  z ^^^ z >>> 31

/-- The stream of a seed. Two words of zero would never change, so ones stand in for them. -/
def ofSeed (seed : UInt64) : RandomStream :=
  let a := mix (seed + seedStride)
  let b := mix (seed + seedStride + seedStride)
  if a == 0 && b == 0 then ⟨1, 1⟩ else ⟨a, b⟩

instance : Inhabited RandomStream := ⟨ofSeed 0⟩

/-- The stream of one map of a world: the map's number enters the seed at both ends of the word. -/
def ofMap (worldSeed : UInt64) (map : UInt16) : RandomStream :=
  ofSeed (worldSeed ^^^ (map.toUInt64 <<< 48) ^^^ map.toUInt64)

/-- The next 64 random bits. -/
def output (r : RandomStream) : UInt64 := r.s0 + r.s1

/-- The stream after one draw. -/
def advance (r : RandomStream) : RandomStream :=
  let t := r.s1 ^^^ r.s0
  ⟨rotateLeft r.s0 24 ^^^ t ^^^ (t <<< 16), rotateLeft t 37⟩

/-- Draws 64 random bits. -/
def next (r : RandomStream) : UInt64 × RandomStream := (r.output, r.advance)

end RandomStream

end TileWorld
