/-!
# Hexadecimal text

Lower-case hexadecimal digits: two for a byte, and four, or as many as are needed, for a 16-bit
word.
-/

namespace TileWorld.Hex

/-- The lower-case hexadecimal digit of a number below sixteen. -/
def digit (n : Nat) : Char :=
  if n < 10 then Char.ofNat (48 + n) else Char.ofNat (87 + n)

/-- A byte as two digits. -/
def byte (b : UInt8) : List Char := [digit (b.toNat / 16), digit (b.toNat % 16)]

/-- A 16-bit word as four digits. -/
def word (w : UInt16) : String :=
  String.ofList [digit (w.toNat / 4096), digit (w.toNat / 256 % 16), digit (w.toNat / 16 % 16),
    digit (w.toNat % 16)]

/-- A 16-bit word without leading zeros. -/
def short (w : UInt16) : String :=
  let digits := [digit (w.toNat / 4096), digit (w.toNat / 256 % 16), digit (w.toNat / 16 % 16)]
  String.ofList (digits.dropWhile (· == '0') ++ [digit (w.toNat % 16)])

/-- A run of bytes, two digits each. -/
def bytes (bs : List UInt8) : String := String.ofList (bs.flatMap byte)

end TileWorld.Hex
