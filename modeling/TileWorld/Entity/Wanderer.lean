import TileWorld.Random.Draw

/-!
# Wandering

A monster stands idle for a random number of ticks and then walks to a random point near its home.
-/

namespace TileWorld

/-- How far a monster strays from home, in pixels. -/
def wanderRadius : UInt16 := 5 * tileSize

/-- The least number of idle ticks between two walks. -/
def minIdle : Nat := 10

/-- The greatest number of idle ticks between two walks. -/
def maxIdle : Nat := 50

/-- The mind of a wandering monster. -/
structure Wanderer where
  /-- The point it wanders around. -/
  home : Point
  /-- How far it strays from home on each axis. -/
  radius : UInt16 := wanderRadius
  /-- How many more ticks it stands idle. -/
  countdown : Nat := 0
deriving DecidableEq, Inhabited

namespace Wanderer

/-- One tick of thought of a monster at `position` on its way to `destination`: the point it wants
to walk to now, if any. While it walks it does not think, and a new walk to where it stands
already is no walk. -/
def think (w : Wanderer) (position destination : Point) (r : RandomStream) :
    Option Point × Wanderer × RandomStream :=
  if position ≠ destination then (none, w, r)
  else if w.countdown > 0 then (none, { w with countdown := w.countdown - 1 }, r)
  else
    let (idle, r) := r.between minIdle maxIdle
    let (target, r) := r.pointNear w.home w.radius
    (if target = position then none else some target, { w with countdown := idle.toNat }, r)

end Wanderer

end TileWorld
