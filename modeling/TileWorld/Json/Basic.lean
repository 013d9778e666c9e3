import TileWorld.Json.Token

/-!
# JSON documents

The second step in reading a JSON document: its tokens become a value. What is still open is kept
on a stack, so that documents may be nested as deep as they like.
-/

namespace TileWorld

/-- A JSON value. The members of an object are kept in their order, with repetitions. -/
inductive Json where
  /-- The value `null`. -/
  | null
  /-- A truth value. -/
  | bool (b : Bool)
  /-- A number, with its value if it is written as a plain sequence of digits. -/
  | number (value : Option Nat)
  /-- A string, with its text if it has one. -/
  | text (value : Option String)
  /-- An array. -/
  | array (items : List Json)
  /-- An object. -/
  | object (members : List (Option String × Json))
deriving Inhabited

namespace Json

/-- An array or an object that is still open, with its contents so far, the last ones first. -/
inductive Frame where
  /-- An array. -/
  | array (items : List Json)
  /-- An object, and the name of the member that comes next. -/
  | object (members : List (Option String × Json)) (name : Option String)
deriving Inhabited

/-- What can come next. -/
inductive Expectation where
  /-- A value. -/
  | value
  /-- The first item of an array, or its end. -/
  | itemOrEnd
  /-- The first name of an object, or its end. -/
  | nameOrEnd
  /-- A name. -/
  | name
  /-- The colon behind a name. -/
  | colon
  /-- A comma, or the end of what is open. -/
  | commaOrEnd
  /-- Nothing: the value is complete. -/
  | nothing (value : Json)
deriving Inhabited

/-- A value under construction. -/
structure Builder where
  /-- What is open, the innermost first. -/
  stack : List Frame := []
  /-- What can come next. -/
  expects : Expectation := .value
deriving Inhabited

namespace Builder

/-- A value is complete; it belongs to whatever is open. -/
def give (stack : List Frame) (v : Json) : Builder :=
  match stack with
  | [] => ⟨[], .nothing v⟩
  | .array items :: rest => ⟨.array (v :: items) :: rest, .commaOrEnd⟩
  | .object members name :: rest => ⟨.object ((name, v) :: members) name :: rest, .commaOrEnd⟩

/-- A token at a place where a value can stand. -/
def value (stack : List Frame) : Token → Option Builder
  | .null => some (give stack .null)
  | .bool b => some (give stack (.bool b))
  | .number v => some (give stack (.number v))
  | .text v => some (give stack (.text v))
  | .openArray => some ⟨.array [] :: stack, .itemOrEnd⟩
  | .openObject => some ⟨.object [] none :: stack, .nameOrEnd⟩
  | .closeArray | .closeObject | .colon | .comma => none

/-- A token that closes what is open. -/
def close : List Frame → Token → Option Builder
  | .array items :: rest, .closeArray => some (give rest (.array items.reverse))
  | .object members _ :: rest, .closeObject => some (give rest (.object members.reverse))
  | _, _ => none

/-- A token at a place where a name can stand. -/
def name : List Frame → Token → Option Builder
  | .object members _ :: rest, .text name => some ⟨.object members name :: rest, .colon⟩
  | _, _ => none

/-- A comma between two items or two members. -/
def comma : List Frame → Option Builder
  | .array items :: rest => some ⟨.array items :: rest, .value⟩
  | .object members name :: rest => some ⟨.object members name :: rest, .name⟩
  | [] => none

/-- One more token, unless no document goes on like this. -/
def step (b : Builder) (t : Token) : Option Builder :=
  match b.expects with
  | .value => value b.stack t
  | .itemOrEnd => if t = .closeArray then close b.stack t else value b.stack t
  | .nameOrEnd => if t = .closeObject then close b.stack t else name b.stack t
  | .name => name b.stack t
  | .colon => if t = .colon then some ⟨b.stack, .value⟩ else none
  | .commaOrEnd => if t = .comma then comma b.stack else close b.stack t
  | .nothing _ => none

/-- The value, if it is complete. -/
def finish (b : Builder) : Option Json :=
  match b.expects with
  | .nothing v => some v
  | _ => none

end Builder

/-- The value that a text spells, if it spells one. -/
def parse? (s : String) : Option Json := do
  (← (← tokens? s).foldlM Builder.step {}).finish

end Json

end TileWorld
