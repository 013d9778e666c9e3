/-!
# JSON tokens

The first step in reading a JSON document: its text becomes a list of tokens. The text is gone
through character by character, and at each place the reader knows which kind of token it is in.

Of numbers only those are kept that are written as plain sequences of digits; all others are just
numbers. Of strings the text is kept if it is a text: an escape may name half of a surrogate pair,
and a string in which a half stands alone has no text.
-/

namespace TileWorld.Json

/-- A token of a JSON document. -/
inductive Token where
  /-- An opening brace. -/
  | openObject
  /-- A closing brace. -/
  | closeObject
  /-- An opening bracket. -/
  | openArray
  /-- A closing bracket. -/
  | closeArray
  /-- A colon. -/
  | colon
  /-- A comma. -/
  | comma
  /-- The word `null`. -/
  | null
  /-- The word `true` or `false`. -/
  | bool (b : Bool)
  /-- A number, with its value if it is written as a plain sequence of digits. -/
  | number (value : Option Nat)
  /-- A string, with its text if it has one. -/
  | text (value : Option String)
deriving DecidableEq, Inhabited

/-! ### Strings -/

/-- The characters that a sequence of codes stands for. Two codes that are the halves of a
surrogate pair make one character, and a half alone makes none. -/
def decodeUnits : List Char → List Nat → Option String
  | done, [] => some (String.ofList done.reverse)
  | done, [u] => if 0xD800 ≤ u ∧ u < 0xE000 then none else decodeUnits (Char.ofNat u :: done) []
  | done, u :: v :: rest =>
    if 0xD800 ≤ u ∧ u < 0xDC00 ∧ 0xDC00 ≤ v ∧ v < 0xE000 then
      decodeUnits (Char.ofNat (0x10000 + (u - 0xD800) * 0x400 + (v - 0xDC00)) :: done) rest
    else if 0xD800 ≤ u ∧ u < 0xE000 then none
    else decodeUnits (Char.ofNat u :: done) (v :: rest)

/-- The code of the character that stands behind a backslash, other than `u`. -/
def simpleEscape : Char → Option Nat
  | '"' => some 0x22
  | '\\' => some 0x5C
  | '/' => some 0x2F
  | 'b' => some 0x08
  | 'f' => some 0x0C
  | 'n' => some 0x0A
  | 'r' => some 0x0D
  | 't' => some 0x09
  | _ => none

/-- The value of a decimal digit. -/
def digit? (c : Char) : Option Nat :=
  if '0' ≤ c ∧ c ≤ '9' then some (c.toNat - 48) else none

/-- The value of a hexadecimal digit of either case. -/
def hexDigit? (c : Char) : Option Nat :=
  if '0' ≤ c ∧ c ≤ '9' then some (c.toNat - 48)
  else if 'a' ≤ c ∧ c ≤ 'f' then some (c.toNat - 87)
  else if 'A' ≤ c ∧ c ≤ 'F' then some (c.toNat - 55)
  else none

/-! ### Numbers -/

/-- How far a number has been read. -/
inductive NumberStage where
  /-- Behind the minus sign. -/
  | sign
  /-- Behind a leading zero. -/
  | zero
  /-- In the digits before the point. -/
  | whole
  /-- Behind the point. -/
  | point
  /-- In the digits behind the point. -/
  | fraction
  /-- Behind the exponent's letter. -/
  | exponentMark
  /-- Behind the exponent's sign. -/
  | exponentSign
  /-- In the digits of the exponent. -/
  | exponent
deriving DecidableEq, Inhabited

namespace NumberStage

/-- A number can end here. -/
def isComplete : NumberStage → Bool
  | zero | whole | fraction | exponent => true
  | sign | point | exponentMark | exponentSign => false

/-- Where the number goes on with a character, if it does. -/
def next (s : NumberStage) (c : Char) : Option NumberStage :=
  let isDigit := (digit? c).isSome
  let isMark := c = 'e' || c = 'E'
  match s with
  | sign => if c = '0' then some zero else if isDigit then some whole else none
  | zero => if c = '.' then some point else if isMark then some exponentMark else none
  | whole =>
    if isDigit then some whole else if c = '.' then some point
    else if isMark then some exponentMark else none
  | point => if isDigit then some fraction else none
  | fraction => if isDigit then some fraction else if isMark then some exponentMark else none
  | exponentMark =>
    if c = '+' || c = '-' then some exponentSign else if isDigit then some exponent else none
  | exponentSign => if isDigit then some exponent else none
  | exponent => if isDigit then some exponent else none

end NumberStage

/-! ### The reader -/

/-- What kind of token the reader is in. -/
inductive Place where
  /-- Between tokens. -/
  | between
  /-- In a word, of which some characters are still to come. -/
  | word (rest : List Char) (token : Token)
  /-- In a number. -/
  | number (stage : NumberStage) (value : Option Nat)
  /-- In a string, with the codes that have been read, the last one first. -/
  | text (units : List Nat)
  /-- Behind a backslash in a string. -/
  | escape (units : List Nat)
  /-- In an escape by number, of which some digits are still to come. -/
  | code (units : List Nat) (missing : Nat) (value : Nat)
deriving DecidableEq, Inhabited

/-- The reader: the tokens that have been read, the last one first, and the place. -/
structure Scan where
  /-- The tokens, the last one first. -/
  tokens : List Token := []
  /-- The place. -/
  place : Place := .between
deriving DecidableEq, Inhabited

namespace Scan

/-- A token is complete. -/
def emit (tokens : List Token) (t : Token) : Option Scan := some ⟨t :: tokens, .between⟩

/-- A character between two tokens: blank space, or the beginning of the next token. -/
def start (tokens : List Token) (c : Char) : Option Scan :=
  match c with
  | ' ' | '\t' | '\n' | '\r' => some ⟨tokens, .between⟩
  | '\x7b' => emit tokens .openObject
  | '\x7d' => emit tokens .closeObject
  | '[' => emit tokens .openArray
  | ']' => emit tokens .closeArray
  | ':' => emit tokens .colon
  | ',' => emit tokens .comma
  | '"' => some ⟨tokens, .text []⟩
  | 'n' => some ⟨tokens, .word ['u', 'l', 'l'] .null⟩
  | 't' => some ⟨tokens, .word ['r', 'u', 'e'] (.bool true)⟩
  | 'f' => some ⟨tokens, .word ['a', 'l', 's', 'e'] (.bool false)⟩
  | '-' => some ⟨tokens, .number .sign none⟩
  | '0' => some ⟨tokens, .number .zero (some 0)⟩
  | c => (digit? c).map fun d => ⟨tokens, .number .whole (some d)⟩

/-- One more character, unless no document goes on like this. -/
def step (s : Scan) (c : Char) : Option Scan :=
  match s.place with
  | .between => start s.tokens c
  | .word (r :: rest) t =>
    if c ≠ r then none else if rest.isEmpty then emit s.tokens t else some ⟨s.tokens, .word rest t⟩
  | .word [] _ => none
  | .number stage value =>
    match stage.next c with
    | some .whole =>
      some ⟨s.tokens, .number .whole (value.bind fun v => (digit? c).map fun d => 10 * v + d)⟩
    | some stage => some ⟨s.tokens, .number stage none⟩
    -- the number ends in front of the character, which may begin the next token
    | none => if stage.isComplete then start (.number value :: s.tokens) c else none
  | .text units =>
    if c = '"' then emit s.tokens (.text (decodeUnits [] units.reverse))
    else if c = '\\' then some ⟨s.tokens, .escape units⟩
    else if c.toNat < 0x20 then none
    else some ⟨s.tokens, .text (c.toNat :: units)⟩
  | .escape units =>
    if c = 'u' then some ⟨s.tokens, .code units 4 0⟩
    else (simpleEscape c).map fun u => ⟨s.tokens, .text (u :: units)⟩
  | .code units missing value => do
    let value := 16 * value + (← hexDigit? c)
    return ⟨s.tokens, if missing ≤ 1 then .text (value :: units) else .code units (missing - 1) value⟩

/-- All tokens, if a document can end here. -/
def finish (s : Scan) : Option (List Token) :=
  match s.place with
  | .between => some s.tokens.reverse
  | .number stage value =>
    if stage.isComplete then some (Token.number value :: s.tokens).reverse else none
  | _ => none

end Scan

/-- The tokens of a text, if it consists of tokens. -/
def tokens? (s : String) : Option (List Token) := do
  (← s.toList.foldlM Scan.step {}).finish

end TileWorld.Json
