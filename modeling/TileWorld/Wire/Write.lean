import TileWorld.Wire.Message

/-!
# Writing messages

A message under construction, and what becomes of it when fields are written to it one after the other.
A text is written in two goes, first its length and then its bytes, but whether the length fits is asked
before either of them. So a text that is refused leaves no trace, and the fields after it are written as
if it had never been there.

`put_eq` says that a field which is put to a message is written to it as a whole or not at all.
-/

namespace TileWorld

namespace Message

/-- The message with some bytes more. -/
def append (m : Message) (bs : Bytes) : Message := { m with payload := m.payload ++ bs }

/-- The length of a text as it is written in front of the text. -/
def textLength (s : String) : Except WireError UInt16 :=
  if s.utf8ByteSize < UInt16.size then .ok (UInt16.ofNat s.utf8ByteSize)
  else .error (.stringTooLong s.utf8ByteSize)

/-- Puts a text to a message. -/
def putText (m : Message) (s : String) : Except WireError Unit × Message :=
  match textLength s with
  | .error e => (.error e, m)
  | .ok n =>
    let m := m.append (Field.ofShort n)
    (.ok (), m.append (Field.utf8 s))

/-- Puts a field to a message. -/
def put (m : Message) : Field → Except WireError Unit × Message
  | .byte v => (.ok (), m.append [v])
  | .short v => (.ok (), m.append (Field.ofShort v))
  | .long v => (.ok (), m.append (Field.ofLong v))
  | .coordinates x y =>
    let m := m.append (Field.ofShort x)
    (.ok (), m.append (Field.ofShort y))
  | .text s => m.putText s

/-- Puts one field after the other, the ones behind a refused field as well. -/
def putAll (m : Message) : List Field → List (Except WireError Unit) × Message
  | [] => ([], m)
  | f :: fs =>
    let (outcome, m) := m.put f
    let (outcomes, m) := m.putAll fs
    (outcome :: outcomes, m)

theorem append_append (m : Message) (bs cs : Bytes) :
    (m.append bs).append cs = m.append (bs ++ cs) := by
  simp only [append, List.append_assoc]

/-- A text is put as a whole if it fits. -/
theorem putText_of_fits (m : Message) {s : String} (h : Field.Fits s) :
    m.putText s = (.ok (), m.append (Field.textBytes s)) := by
  have hlength : textLength s = .ok (UInt16.ofNat s.utf8ByteSize) := if_pos (Nat.lt_succ_of_le h)
  simp only [putText, hlength, append_append]
  rfl

/-- A text that is too long leaves the message as it is. -/
theorem putText_of_not_fits (m : Message) {s : String} (h : 65535 < s.utf8ByteSize) :
    m.putText s = (.error (.stringTooLong s.utf8ByteSize), m) := by
  have hlength : textLength s = .error (.stringTooLong s.utf8ByteSize) :=
    if_neg (Nat.not_lt.mpr (Nat.succ_le_of_lt h))
  simp only [putText, hlength]

/-- A field is put as a whole if it has a written form, and else not at all. -/
theorem put_eq (m : Message) (f : Field) : m.put f = match m.write f with
    | .ok m' => (.ok (), m')
    | .error e => (.error e, m) := by
  cases f with
  | text s =>
    by_cases h : Field.Fits s
    · rw [put, putText_of_fits m h, write, Field.encode, Field.ofText_of_fits h]
      rfl
    · have hlong : 65535 < s.utf8ByteSize := Nat.not_le.mp h
      rw [put, putText_of_not_fits m hlong, write, Field.encode,
        Field.ofText_eq_error_iff.mpr ⟨hlong, rfl⟩]
      rfl
  | coordinates x y =>
    rw [put, append_append]
    rfl
  | _ => rfl

theorem putAll_cons (m : Message) (f : Field) (fs : List Field) :
    m.putAll (f :: fs) = ((m.put f).1 :: ((m.put f).2.putAll fs).1, ((m.put f).2.putAll fs).2) := rfl

theorem putAll_append (m : Message) (fs gs : List Field) : m.putAll (fs ++ gs) =
    ((m.putAll fs).1 ++ ((m.putAll fs).2.putAll gs).1, ((m.putAll fs).2.putAll gs).2) := by
  induction fs generalizing m with
  | nil => rfl
  | cons f fs ih =>
    rw [List.cons_append, putAll_cons, ih, putAll_cons]
    rfl

/-- Putting fields one after the other makes the message of the fields, if it can be written. -/
theorem putAll_of_foldlM {m m' : Message} {fs : List Field} (h : fs.foldlM write m = .ok m') :
    m.putAll fs = (fs.map fun _ => .ok (), m') := by
  induction fs generalizing m with
  | nil =>
    cases h
    rfl
  | cons f fs ih =>
    rw [List.foldlM_cons] at h
    cases hf : m.write f with
    | error e =>
      rw [hf] at h
      cases h
    | ok m₁ =>
      rw [hf] at h
      rw [putAll_cons, put_eq, hf, ih h]
      rfl

/-- Fields make a message if none of them is a text that does not fit. -/
theorem exists_ofFields (opcode : UInt16) {fs : List Field}
    (h : ∀ s, Field.text s ∈ fs → Field.Fits s) : ∃ m, ofFields opcode fs = .ok m := by
  suffices key : ∀ m : Message, ∃ m', fs.foldlM write m = .ok m' from key _
  intro m
  induction fs generalizing m with
  | nil => exact ⟨m, rfl⟩
  | cons f fs ih =>
    have hencode : ∃ bs, f.encode = .ok bs := by
      cases f with
      | text s => exact ⟨_, Field.ofText_of_fits (h s List.mem_cons_self)⟩
      | _ => exact ⟨_, rfl⟩
    obtain ⟨bs, hbs⟩ := hencode
    have hfits (s : String) (hs : Field.text s ∈ fs) : Field.Fits s := h s (List.mem_cons_of_mem _ hs)
    obtain ⟨m', hm'⟩ := ih hfits ⟨m.opcode, m.payload ++ bs⟩
    refine ⟨m', ?_⟩
    rw [List.foldlM_cons, write_eq_ok_iff.mpr ⟨bs, hbs, rfl⟩]
    exact hm'

end Message

end TileWorld
