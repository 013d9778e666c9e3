/-!
# Numbers in text

Reading unsigned numbers: off the front of a text, with a say in how many digits there may be, and
as a whole text.
-/

namespace TileWorld

/-- The value of a digit in a base of at most sixteen. Letters may be of either case. -/
def digitValue? (base : Nat) (c : Char) : Option Nat :=
  let value :=
    if '0' ≤ c ∧ c ≤ '9' then some (c.toNat - 48)
    else if 'a' ≤ c ∧ c ≤ 'f' then some (c.toNat - 87)
    else if 'A' ≤ c ∧ c ≤ 'F' then some (c.toNat - 55)
    else none
  value.filter (· < base)

/-- What a run of characters has to be like to count as a number. -/
structure NumberForm where
  /-- The base. -/
  base : Nat := 10
  /-- The greatest number of digits, if that is limited. -/
  maxDigits : Option Nat := none
  /-- A number of several digits may begin with a zero. -/
  leadingZeros : Bool := true
  /-- The greatest number. -/
  max : Nat
deriving DecidableEq, Inhabited

/-- Reads a number off the front of a text: all digits that are there belong to it. -/
def NumberForm.read (f : NumberForm) (cs : List Char) : Option (Nat × List Char) :=
  let digits := cs.takeWhile fun c => (digitValue? f.base c).isSome
  let rest := cs.drop digits.length
  let value := digits.foldl (fun n c => f.base * n + (digitValue? f.base c).getD 0) 0
  if digits.isEmpty then none
  else if f.maxDigits.any (· < digits.length) then none
  else if !f.leadingZeros && digits.head? == some '0' && digits.length > 1 then none
  else if value > f.max then none
  else some (value, rest)

/-- The number that a whole text spells, in decimal digits that may follow a plus sign. -/
def unsigned? (max : Nat) (s : String) : Option Nat :=
  let digits := match s.toList with
    | '+' :: cs => cs
    | cs => cs
  match NumberForm.read { max } digits with
  | some (n, []) => some n
  | _ => none

end TileWorld
