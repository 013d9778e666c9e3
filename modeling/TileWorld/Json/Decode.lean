import TileWorld.Json.Basic

/-!
# Reading values out of JSON

Numbers, texts, lists and records. A record is written as an object, whose members may stand in
any order and of which unknown ones are passed over, or as an array of its fields in their order,
of which the last ones may be missing. No field may be given twice.
-/

namespace TileWorld.Json

/-- A number of at most `max`, written as a plain sequence of digits. -/
def nat? (max : Nat) : Json → Option Nat
  | number (some n) => if n ≤ max then some n else none
  | _ => none

/-- An 8-bit number. -/
def byte? (j : Json) : Option UInt8 := (j.nat? 0xFF).map UInt8.ofNat

/-- A 16-bit number. -/
def short? (j : Json) : Option UInt16 := (j.nat? 0xFFFF).map UInt16.ofNat

/-- A text. -/
def text? : Json → Option String
  | text v => v
  | _ => none

/-- A list, item by item. -/
def list? {α : Type} (item? : Json → Option α) : Json → Option (List α)
  | array items => items.mapM item?
  | _ => none

/-- A pair, written as an array. -/
def pair? {α : Type} (item? : Json → Option α) : Json → Option (α × α)
  | array [a, b] => do return (← item? a, ← item? b)
  | _ => none

/-- The fields of a record, by name. -/
abbrev Fields := List (String × Json)

/-- The fields that a record gives, where `names` are the names of all its fields. -/
def fields? (names : List String) : Json → Option Fields
  | array items => if items.length ≤ names.length then some (names.zip items) else none
  | object members => do
    let named ← members.mapM fun (name, v) => name.map fun name => (name, v)
    let known := named.filter fun (name, _) => names.contains name
    if (known.map Prod.fst).Nodup then some known else none
  | _ => none

/-- A field that has to be given. -/
def Fields.get? {α : Type} (fs : Fields) (name : String) (read : Json → Option α) : Option α :=
  fs.lookup name >>= read

/-- A field that stands for a default when it is not given. -/
def Fields.getD? {α : Type} (fs : Fields) (name : String) (read : Json → Option α) (default : α) :
    Option α :=
  match fs.lookup name with
  | none => some default
  | some j => read j

end TileWorld.Json
