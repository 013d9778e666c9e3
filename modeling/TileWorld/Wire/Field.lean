import TileWorld.Wire.Error

/-!
# Fields

The fields of a message and their bytes. Numbers are little-endian; a text is its length in bytes,
as a 16-bit number, followed by its UTF-8 bytes, and a text too long for that length has no
written form.

The main statements are `ofLittleEndian_littleEndian`, that the bytes of a number give the number
back, up to the width, and `littleEndian_ofLittleEndian`, that every run of bytes comes from the
number that it stands for.
-/

namespace TileWorld

/-- A run of bytes on the wire. -/
abbrev Bytes := List UInt8

/-! ### Little-endian numbers -/

/-- The lowest `width` bytes of a number, the lowest one first. -/
def littleEndian : Nat → Nat → Bytes
  | 0, _ => []
  | width + 1, n => UInt8.ofNat n :: littleEndian width (n / 256)

/-- The number that a run of bytes stands for, the lowest byte first. -/
def ofLittleEndian : Bytes → Nat
  | [] => 0
  | b :: bs => b.toNat + 256 * ofLittleEndian bs

@[simp] theorem length_littleEndian (width n : Nat) : (littleEndian width n).length = width := by
  induction width generalizing n with
  | zero => rfl
  | succ width ih => simp [littleEndian, ih]

/-- Reading back the bytes of a number gives the number, up to the width. -/
@[simp] theorem ofLittleEndian_littleEndian (width n : Nat) :
    ofLittleEndian (littleEndian width n) = n % Nat.pow 256 width := by
  induction width generalizing n with
  | zero => simp [littleEndian, ofLittleEndian, Nat.mod_one]
  | succ width ih =>
    have h : n % (Nat.pow 256 width * 256) = n % 256 + 256 * (n / 256 % Nat.pow 256 width) := by
      rw [Nat.mul_comm, Nat.mod_mul]
    rw [littleEndian, ofLittleEndian, ih]
    exact h.symm

/-- A run of bytes is the bytes of the number that it stands for. -/
theorem littleEndian_ofLittleEndian (bs : Bytes) :
    littleEndian bs.length (ofLittleEndian bs) = bs := by
  induction bs with
  | nil => rfl
  | cons b bs ih =>
    have hlt := b.toNat_lt
    have hlow : UInt8.ofNat (b.toNat + 256 * ofLittleEndian bs) = b := by
      rw [← UInt8.toNat_inj, UInt8.toNat_ofNat']
      omega
    have hhigh : (b.toNat + 256 * ofLittleEndian bs) / 256 = ofLittleEndian bs := by omega
    rw [List.length_cons, ofLittleEndian, littleEndian, hlow, hhigh, ih]

theorem ofLittleEndian_lt (bs : Bytes) : ofLittleEndian bs < Nat.pow 256 bs.length := by
  induction bs with
  | nil => exact Nat.one_pos
  | cons b bs ih =>
    have hlt := b.toNat_lt
    have hpow : Nat.pow 256 (bs.length + 1) = Nat.pow 256 bs.length * 256 := rfl
    rw [List.length_cons, ofLittleEndian, hpow]
    omega

/-! ### Fields -/

/-- One field of a message. -/
inductive Field where
  /-- A byte. -/
  | byte (v : UInt8)
  /-- A 16-bit number. -/
  | short (v : UInt16)
  /-- A 32-bit number. -/
  | long (v : UInt32)
  /-- A pair of coordinates. -/
  | coordinates (x y : UInt16)
  /-- A text. -/
  | text (s : String)
deriving DecidableEq, Inhabited

namespace Field

/-- The bytes of a 16-bit number. -/
def ofShort (v : UInt16) : Bytes := littleEndian 2 v.toNat

/-- The bytes of a 32-bit number. -/
def ofLong (v : UInt32) : Bytes := littleEndian 4 v.toNat

/-- The bytes of a pair of coordinates. -/
def ofCoordinates (x y : UInt16) : Bytes := ofShort x ++ ofShort y

/-- The UTF-8 bytes of a text. -/
def utf8 (s : String) : Bytes := s.toUTF8.data.toList

/-- The text that a run of bytes spells in UTF-8, if it spells one. -/
def ofUtf8? (bs : Bytes) : Option String := String.fromUTF8? ⟨bs.toArray⟩

/-- The length of a text in bytes is a 16-bit number, so that the text has a written form. -/
def Fits (s : String) : Prop := s.utf8ByteSize ≤ 65535

instance (s : String) : Decidable (Fits s) := inferInstanceAs (Decidable (_ ≤ _))

/-- The bytes of a text that fits, length first. -/
def textBytes (s : String) : Bytes := ofShort (UInt16.ofNat s.utf8ByteSize) ++ utf8 s

/-- The bytes of a text. -/
def ofText (s : String) : Except WireError Bytes :=
  if Fits s then .ok (textBytes s) else .error (.stringTooLong s.utf8ByteSize)

/-- The bytes of a field. -/
def encode : Field → Except WireError Bytes
  | byte v => .ok [v]
  | short v => .ok (ofShort v)
  | long v => .ok (ofLong v)
  | coordinates x y => .ok (ofCoordinates x y)
  | text s => ofText s

@[simp] theorem length_ofShort (v : UInt16) : (ofShort v).length = 2 := by simp [ofShort]

@[simp] theorem length_ofLong (v : UInt32) : (ofLong v).length = 4 := by simp [ofLong]

@[simp] theorem length_ofCoordinates (x y : UInt16) : (ofCoordinates x y).length = 4 := by
  simp [ofCoordinates]

@[simp] theorem length_utf8 (s : String) : (utf8 s).length = s.utf8ByteSize := rfl

/-- A text reads back from its own bytes. -/
@[simp] theorem ofUtf8?_utf8 (s : String) : ofUtf8? (utf8 s) = some s := by
  simp [ofUtf8?, utf8, String.fromUTF8?, s.isValidUTF8, String.fromUTF8]

/-- Two bytes are the bytes of the number that they stand for. -/
theorem ofShort_ofLittleEndian {bs : Bytes} (h : bs.length = 2) :
    ofShort (UInt16.ofNat (ofLittleEndian bs)) = bs := by
  have hlt := ofLittleEndian_lt bs
  rw [h] at hlt
  have hnat : (UInt16.ofNat (ofLittleEndian bs)).toNat = ofLittleEndian bs := by
    rw [UInt16.toNat_ofNat']
    exact Nat.mod_eq_of_lt hlt
  rw [ofShort, hnat, ← h, littleEndian_ofLittleEndian]

/-- A run of bytes spells a text if it is the UTF-8 bytes of the text. -/
theorem ofUtf8?_eq_some_iff {bs : Bytes} {s : String} : ofUtf8? bs = some s ↔ utf8 s = bs := by
  constructor
  · intro h
    rw [ofUtf8?, String.fromUTF8?] at h
    split at h
    · cases h
      rfl
    · cases h
  · rintro rfl
    exact ofUtf8?_utf8 s

/-- There are texts of any length, so some do not fit. -/
theorem exists_not_fits : ∃ s : String, ¬ Fits s := by
  have hlength (n : Nat) : ∃ s : String, s.utf8ByteSize = n := by
    induction n with
    | zero => exact ⟨"", rfl⟩
    | succ n ih =>
      obtain ⟨s, rfl⟩ := ih
      refine ⟨s ++ String.singleton 'n', ?_⟩
      rw [String.utf8ByteSize_append, String.utf8ByteSize_singleton]
      rfl
  obtain ⟨s, hs⟩ := hlength 65536
  refine ⟨s, ?_⟩
  rw [Fits, hs]
  decide

theorem ofText_of_fits {s : String} (h : Fits s) : ofText s = .ok (textBytes s) := if_pos h

/-- A text can be written if it fits. -/
theorem ofText_eq_ok_iff {s : String} {bs : Bytes} :
    ofText s = .ok bs ↔ Fits s ∧ bs = textBytes s := by
  by_cases h : Fits s <;> simp [ofText, h, eq_comm]

/-- Only texts that are too long have no written form. -/
theorem ofText_eq_error_iff {s : String} {e : WireError} :
    ofText s = .error e ↔ 65535 < s.utf8ByteSize ∧ e = .stringTooLong s.utf8ByteSize := by
  by_cases h : s.utf8ByteSize ≤ 65535
  · simp [ofText, Fits, h, Nat.not_lt.mpr h]
  · simp [ofText, Fits, h, Nat.not_le.mp h, eq_comm]

end Field

end TileWorld
