import Mathlib.Logic.Function.Iterate
import TileWorld.Random.Basic

/-!
# Streams that never meet

Every map of a world draws from a stream of its own. The number of the map can be read off its seed,
mixing loses nothing, and neither does a draw (`RandomStream.next_injective`). So the streams of two
maps are in different states after any number of draws (`RandomStream.separate_of_maps`).

No stream gets stuck at two words of zero. Only zero is mixed to zero, and the two words of a seed are
mixed from different words, so that the ones which could stand in for two words of zero are never
needed (`RandomStream.ofSeed_eq`).
-/

namespace TileWorld

namespace RandomStream

/-! ### What shifts, turns and products keep of a word -/

/-- A word can be told from its exclusive or with what a shift to the right leaves of it. -/
theorem xor_shiftRight_injective {k : UInt64} (hk : 0 < k.toNat % 64) :
    Function.Injective fun z : UInt64 => z ^^^ z >>> k := by
  intro x y h
  have h : x ^^^ x >>> k = y ^^^ y >>> k := h
  -- the difference of the two words outlasts the shift, and only zero does
  have hsame : x ^^^ y = (x ^^^ y) >>> k := by
    rw [UInt64.shiftRight_xor, ← UInt64.xor_eq_zero_iff, ← UInt64.xor_eq_zero_iff.mpr h]
    ac_rfl
  have hdiv : (x ^^^ y).toNat = (x ^^^ y).toNat / 2 ^ (k.toNat % 64) := by
    rw [← Nat.shiftRight_eq_div_pow, ← UInt64.toNat_shiftRight, ← hsame]
  have hone : 1 < 2 ^ (k.toNat % 64) := Nat.one_lt_two_pow (Nat.ne_of_gt hk)
  refine UInt64.xor_eq_zero_iff.mp (UInt64.toNat_inj.mp ?_)
  rcases Nat.eq_zero_or_pos (x ^^^ y).toNat with hzero | hpos
  · exact hzero
  · exact absurd hdiv.symm (Nat.ne_of_lt (Nat.div_lt_self hpos hone))

theorem testBit_of_le (w : UInt64) {i : Nat} (hi : 64 ≤ i) : w.toNat.testBit i = false :=
  Nat.testBit_lt_two_pow (Nat.lt_of_lt_of_le w.toNat_lt (Nat.pow_le_pow_right (by decide) hi))

/-- The bits of a word turned left are those of the word, moved on by `k` places. -/
theorem testBit_rotateLeft (w : UInt64) {k : UInt64} (hpos : 0 < k.toNat) (hk : k.toNat < 64)
    {i : Nat} (hi : i < 64) : (rotateLeft w k).toNat.testBit i =
      if i < k.toNat then w.toNat.testBit (i + (64 - k.toNat)) else w.toNat.testBit (i - k.toNat) := by
  have hsub : (64 - k).toNat = 64 - k.toNat :=
    UInt64.toNat_sub_of_le _ _ (UInt64.le_iff_toNat_le.mpr (Nat.le_of_lt hk))
  rw [rotateLeft, UInt64.toNat_or, UInt64.toNat_shiftLeft, UInt64.toNat_shiftRight, hsub,
    Nat.mod_eq_of_lt hk, Nat.mod_eq_of_lt (by omega : 64 - k.toNat < 64), Nat.testBit_or,
    Nat.testBit_mod_two_pow, Nat.testBit_shiftLeft, Nat.testBit_shiftRight]
  split
  · simp [show ¬ i ≥ k.toNat by omega, Nat.add_comm]
  · simp [hi, show i ≥ k.toNat by omega, testBit_of_le w (show 64 ≤ 64 - k.toNat + i by omega)]

/-- A word can be told from the word turned left. -/
theorem rotateLeft_injective {k : UInt64} (hpos : 0 < k.toNat) (hk : k.toNat < 64) :
    Function.Injective (rotateLeft · k) := by
  intro x y h
  have hturned (i : Nat) : (rotateLeft x k).toNat.testBit i = (rotateLeft y k).toNat.testBit i :=
    congrArg (·.toNat.testBit i) h
  refine UInt64.toNat_inj.mp (Nat.eq_of_testBit_eq fun j => ?_)
  rcases Nat.lt_or_ge j 64 with hj | hj
  · -- the bit has moved on, or it has come round
    rcases Nat.lt_or_ge (j + k.toNat) 64 with hlt | hge
    · have hbit := hturned (j + k.toNat)
      rwa [testBit_rotateLeft _ hpos hk hlt, testBit_rotateLeft _ hpos hk hlt,
        if_neg (by omega), if_neg (by omega), Nat.add_sub_cancel] at hbit
    · have hbit := hturned (j + k.toNat - 64)
      rwa [testBit_rotateLeft _ hpos hk (by omega), testBit_rotateLeft _ hpos hk (by omega),
        if_pos (by omega), if_pos (by omega),
        show j + k.toNat - 64 + (64 - k.toNat) = j by omega] at hbit
  · rw [testBit_of_le x hj, testBit_of_le y hj]

/-- Multiplication by a word with an inverse can be undone. -/
theorem mul_injective_of_inverse {c d : UInt64} (hcd : c * d = 1) :
    Function.Injective fun z : UInt64 => z * c := by
  intro x y h
  have h : x * c = y * c := h
  calc x = x * c * d := by rw [UInt64.mul_assoc, hcd, UInt64.mul_one]
    _ = y * c * d := by rw [h]
    _ = y := by rw [UInt64.mul_assoc, hcd, UInt64.mul_one]

/-! ### Seeds -/

/-- Mixing loses nothing: each of its five steps can be undone. -/
theorem mix_injective : Function.Injective mix := by
  have hfirst := xor_shiftRight_injective (k := 30) (by decide)
  have hsecond := xor_shiftRight_injective (k := 27) (by decide)
  have hthird := xor_shiftRight_injective (k := 31) (by decide)
  have hmul := mul_injective_of_inverse (c := 0xBF58476D1CE4E5B9) (d := 0x96DE1B173F119089) (by decide)
  have hmul' := mul_injective_of_inverse (c := 0x94D049BB133111EB) (d := 0x319642B2D24D8EC3) (by decide)
  exact hthird.comp (hmul'.comp (hsecond.comp (hmul.comp hfirst)))

theorem mix_eq_zero_iff {z : UInt64} : mix z = 0 ↔ z = 0 :=
  mix_injective.eq_iff' (by decide)

/-- The two words of a seed are never both zero. -/
theorem not_mix_eq_zero_and (seed : UInt64) :
    ¬ (mix (seed + seedStride) = 0 ∧ mix (seed + seedStride + seedStride) = 0) := by
  rw [mix_eq_zero_iff, mix_eq_zero_iff]
  rintro ⟨ha, hb⟩
  rw [ha] at hb
  exact absurd hb (by decide)

theorem ofSeed_eq (seed : UInt64) :
    ofSeed seed = ⟨mix (seed + seedStride), mix (seed + seedStride + seedStride)⟩ := by
  rw [ofSeed, if_neg]
  rw [Bool.and_eq_true, beq_iff_eq, beq_iff_eq]
  exact not_mix_eq_zero_and seed

/-- No two seeds give the same stream. -/
theorem ofSeed_injective : Function.Injective ofSeed := by
  intro seed seed' h
  rw [ofSeed_eq, ofSeed_eq] at h
  exact (UInt64.add_left_inj _).mp (mix_injective (congrArg s0 h))

/-- No stream starts with two words of zero. -/
theorem ofSeed_ne_zero (seed : UInt64) : ofSeed seed ≠ ⟨0, 0⟩ := by
  rw [ofSeed_eq, Ne, mk.injEq]
  exact not_mix_eq_zero_and seed

/-- Two maps of a world start with different streams: the lower end of the seed, less that of the
world's seed, is the number of the map. -/
theorem ofMap_injective (worldSeed : UInt64) : Function.Injective (ofMap worldSeed) := by
  intro a b h
  have hseeds := ofSeed_injective h
  rw [UInt64.xor_assoc, UInt64.xor_assoc, UInt64.xor_right_inj] at hseeds
  have hhigh (c : UInt16) : (c.toUInt64 <<< 48).toUInt16 = 0 := by
    apply UInt16.toNat_inj.mp
    rw [UInt64.toNat_toUInt16, UInt64.toNat_shiftLeft, Nat.shiftLeft_eq]
    show c.toUInt64.toNat * 2 ^ 48 % 2 ^ 64 % 2 ^ 16 = 0
    omega
  have hlow := congrArg UInt64.toUInt16 hseeds
  rwa [UInt64.toUInt16_xor, UInt64.toUInt16_xor, hhigh, hhigh, UInt16.zero_xor, UInt16.zero_xor,
    UInt16.toUInt16_toUInt64, UInt16.toUInt16_toUInt64] at hlow

/-! ### Draws -/

/-- The stream after a number of draws. -/
def afterDraws (n : Nat) (r : RandomStream) : RandomStream := (fun r => r.next.2)^[n] r

/-- No two states become the same by a draw. -/
theorem next_injective : Function.Injective fun r : RandomStream => r.next.2 := by
  rintro ⟨a, b⟩ ⟨a', b'⟩ h
  simp only [next, advance, mk.injEq] at h
  obtain ⟨hfirst, hsecond⟩ := h
  -- the second word is the difference of the old ones, turned, and the first one then gives one of them
  have hdiff : b ^^^ a = b' ^^^ a' :=
    rotateLeft_injective (k := 37) (by decide) (by decide) hsecond
  rw [hdiff, UInt64.xor_left_inj, UInt64.xor_left_inj] at hfirst
  obtain rfl : a = a' := rotateLeft_injective (k := 24) (by decide) (by decide) hfirst
  rw [(UInt64.xor_left_inj a).mp hdiff]

/-- Two streams that are apart stay apart. -/
theorem afterDraws_injective (n : Nat) : Function.Injective (afterDraws n) :=
  next_injective.iterate n

/-- A draw takes two words of zero to themselves, and so nothing else to them. -/
theorem next_eq_zero_iff {r : RandomStream} : r.next.2 = ⟨0, 0⟩ ↔ r = ⟨0, 0⟩ :=
  next_injective.eq_iff' (by decide)

/-- A stream comes to two words of zero only from there. -/
theorem afterDraws_eq_zero_iff {n : Nat} {r : RandomStream} :
    afterDraws n r = ⟨0, 0⟩ ↔ r = ⟨0, 0⟩ := by
  induction n generalizing r with
  | zero => rfl
  | succ n ih => exact ih.trans next_eq_zero_iff

/-- The streams of two maps of a world are in different states at the start and after any number of
draws. No stream that was made from a seed ever has two words of zero for its state. A draw takes
different states to different states, and states other than two words of zero to such states. -/
theorem separate_of_maps :
    (∀ (worldSeed : UInt64) (a b : UInt16), a ≠ b →
      ofMap worldSeed a ≠ ofMap worldSeed b ∧
        ∀ n, afterDraws n (ofMap worldSeed a) ≠ afterDraws n (ofMap worldSeed b)) ∧
    (∀ seed n, afterDraws n (ofSeed seed) ≠ ⟨0, 0⟩) ∧
    (∀ r r' : RandomStream, r ≠ r' → r.next.2 ≠ r'.next.2) ∧
    ∀ r : RandomStream, r ≠ ⟨0, 0⟩ → r.next.2 ≠ ⟨0, 0⟩ := by
  refine ⟨fun worldSeed a b hab => ?_, fun seed n => ?_, fun r r' hne => next_injective.ne hne,
    fun r hr => mt next_eq_zero_iff.mp hr⟩
  · have hstart : ofMap worldSeed a ≠ ofMap worldSeed b := (ofMap_injective worldSeed).ne hab
    exact ⟨hstart, fun n => (afterDraws_injective n).ne hstart⟩
  · exact mt afterDraws_eq_zero_iff.mp (ofSeed_ne_zero seed)

/-- The first two maps of a world with the seed 7 draw from streams that are apart after 1000 draws, and
the stream of the first one does not come to two words of zero by a draw. -/
theorem separate_of_first_maps : (1 : UInt16) ≠ 2 ∧
    afterDraws 1000 (ofMap 7 1) ≠ afterDraws 1000 (ofMap 7 2) ∧
    ofMap 7 1 ≠ ⟨0, 0⟩ ∧ (ofMap 7 1).next.2 ≠ ⟨0, 0⟩ := by
  have hmaps : (1 : UInt16) ≠ 2 := by decide
  have hstart : ofMap 7 1 ≠ ⟨0, 0⟩ := by decide
  obtain ⟨hapart, -, -, hnonzero⟩ := separate_of_maps
  exact ⟨hmaps, (hapart 7 1 2 hmaps).2 1000, hstart, hnonzero _ hstart⟩

end RandomStream

end TileWorld
