import TileWorld.Wire.Reader

/-!
# Sequences of reads

Several reads from one frame, one after the other. The first one that fails ends the sequence, and
the reader stays where that read has left it.

The main statements are `readsBack_fields`, which says that what was written field by field is read
back field by field, and `ReadsBack.toEnd`, which says the same of like things written one after
another up to the end of the frame.
-/

namespace TileWorld

/-- Something that reads from a frame. -/
abbrev Read (α : Type) := ExceptT WireError (StateM Reader) α

namespace Read

variable {α β : Type}

@[simp] theorem pure_apply (a : α) (r : Reader) : (pure a : Read α) r = (.ok a, r) := rfl

/-- One read after another: the second one takes place if the first one succeeds. -/
@[simp] theorem bind_apply (m : Read α) (f : α → Read β) (r : Reader) :
    (m >>= f) r = match m r with
      | (.ok a, r) => f a r
      | (.error e, r) => (.error e, r) := by
  show (match m r with | (x, r) => ExceptT.bindCont f x r) = _
  rcases m r with ⟨_ | _, _⟩ <;> rfl

@[simp] theorem map_apply (f : α → β) (m : Read α) (r : Reader) :
    (f <$> m) r = match m r with
      | (.ok a, r) => (.ok (f a), r)
      | (.error e, r) => (.error e, r) := by
  rw [← bind_pure_comp, bind_apply]
  rfl

/-- Reads something if it is announced. -/
def announced (flag : Bool) (m : Read α) : Read (Option α) := if flag then some <$> m else pure none

/-- Reads one thing after another until the frame ends, at most `fuel` of them. -/
def many (m : Read α) : Nat → Read (List α)
  | 0 => pure []
  | fuel + 1 => fun r =>
    if r.remaining = 0 then (.ok [], r)
    else (do return (← m) :: (← many m fuel) : Read (List α)) r

/-- Reads one thing after another until the frame ends. Each takes at least a byte, so that there
are no more of them than bytes. -/
def toEnd (m : Read α) : Read (List α) := fun r => many m r.remaining r

/-- Reads fields of given kinds. -/
def fields : List FieldKind → Read (List Field)
  | [] => pure []
  | k :: ks => do return (← fun r => r.field k) :: (← fields ks)

/-! ### What was written reads back -/

/-- A read gives back what was written in a certain way, and goes behind it. -/
def ReadsBack (m : Read α) (a : α) (bs : Bytes) : Prop :=
  ∀ op off rest, m ⟨op, off, bs ++ rest⟩ = (.ok a, ⟨op, off + bs.length, rest⟩)

/-- A text that fits reads back. -/
theorem readsBack_text {s : String} (h : Field.Fits s) :
    ReadsBack Reader.text s (Field.textBytes s) := by
  intro op off rest
  have hn : (UInt16.ofNat s.utf8ByteSize).toNat = (Field.utf8 s).length := by
    rw [UInt16.toNat_ofNat', Field.length_utf8]
    exact Nat.mod_eq_of_lt (Nat.lt_succ_of_le h)
  simp [Field.textBytes, Reader.text, List.append_assoc, hn, Reader.take_append,
    -Field.length_utf8, Nat.add_assoc]

/-- A field that has a written form reads back. -/
theorem readsBack_field {f : Field} {bs : Bytes} (h : f.encode = .ok bs) :
    ReadsBack (fun r => r.field f.kind) f bs := by
  intro op off rest
  cases f with
  | byte v => cases h; simp [Field.kind, Reader.field, Except.map]
  | short v => cases h; simp [Field.kind, Reader.field, Except.map]
  | long v => cases h; simp [Field.kind, Reader.field, Except.map]
  | coordinates x y => cases h; simp [Field.kind, Reader.field, Except.map]
  | text s =>
    obtain ⟨hs, rfl⟩ := Field.ofText_eq_ok_iff.mp h
    simp [Field.kind, Reader.field, readsBack_text hs op off rest, Except.map]

/-- Nothing is read from nothing. -/
theorem readsBack_pure (a : α) : ReadsBack (pure a) a [] := fun _ _ _ => rfl

/-- Things written one after the other read back one after the other. -/
theorem ReadsBack.bind {m : Read α} {f : α → Read β} {a : α} {b : β} {bs cs : Bytes}
    (h : ReadsBack m a bs) (h' : ReadsBack (f a) b cs) : ReadsBack (m >>= f) b (bs ++ cs) := by
  intro op off rest
  simp [List.append_assoc, h op off, h' op, Nat.add_assoc]

theorem ReadsBack.map {m : Read α} {a : α} {bs : Bytes} (h : ReadsBack m a bs) (f : α → β) :
    ReadsBack (f <$> m) (f a) bs := by
  intro op off rest
  simp [h op off]

/-- Fields that have a written form read back, and the message that they make holds nothing
else. -/
theorem readsBack_fields {fs : List Field} {m m' : Message} (h : fs.foldlM Message.write m = .ok m') :
    ∃ bs, m' = ⟨m.opcode, m.payload ++ bs⟩ ∧ ReadsBack (fields (fs.map Field.kind)) fs bs := by
  induction fs generalizing m with
  | nil =>
    cases h
    exact ⟨[], by simp, readsBack_pure []⟩
  | cons f fs ih =>
    rw [List.foldlM_cons] at h
    cases hf : m.write f with
    | error e => rw [hf] at h; cases h
    | ok m₁ =>
      rw [hf] at h
      obtain ⟨bs, hbs, rfl⟩ := Message.write_eq_ok_iff.mp hf
      obtain ⟨cs, rfl, hcs⟩ := ih h
      refine ⟨bs ++ cs, by simp [List.append_assoc], ?_⟩
      exact (readsBack_field hbs).bind (hcs.map _)

/-- Like things written one after another read back one after another, up to the end, each as what
is read of it. -/
theorem ReadsBack.toEnd_map {m : Read α} {f : β → α} {enc : β → Bytes}
    (h : ∀ b, ReadsBack m (f b) (enc b)) (hpos : ∀ b, enc b ≠ []) (op : UInt16) (off : Nat)
    (bs : List β) :
    toEnd m ⟨op, off, bs.flatMap enc⟩ =
      (.ok (bs.map f), ⟨op, off + (bs.flatMap enc).length, []⟩) := by
  have key : ∀ (fuel off : Nat), bs.length ≤ fuel →
      many m fuel ⟨op, off, bs.flatMap enc⟩ =
        (.ok (bs.map f), ⟨op, off + (bs.flatMap enc).length, []⟩) := by
    induction bs with
    | nil =>
      intro fuel off _
      cases fuel <;> simp [many, Reader.remaining]
    | cons b bs ih =>
      intro fuel off hfuel
      cases fuel with
      | zero => simp at hfuel
      | succ fuel =>
        have hne : enc b ≠ [] := hpos b
        simp [many, Reader.remaining, hne, h b op off, ih fuel _ (by simpa using hfuel),
          Nat.add_assoc]
  refine key _ off ?_
  simp only [Reader.remaining]
  clear key
  induction bs with
  | nil => simp
  | cons b bs ih =>
    have := List.length_pos_iff.mpr (hpos b)
    simp only [List.flatMap_cons, List.length_append, List.length_cons]
    omega

/-- Like things written one after another read back one after another, up to the end. -/
theorem ReadsBack.toEnd {m : Read α} {enc : α → Bytes} (h : ∀ a, ReadsBack m a (enc a))
    (hpos : ∀ a, enc a ≠ []) (op : UInt16) (off : Nat) (as : List α) :
    toEnd m ⟨op, off, as.flatMap enc⟩ = (.ok as, ⟨op, off + (as.flatMap enc).length, []⟩) := by
  have hread := ReadsBack.toEnd_map (f := id) h hpos op off as
  rwa [List.map_id] at hread

end Read

end TileWorld
