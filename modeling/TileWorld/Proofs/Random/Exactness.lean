import TileWorld.Random.Words
import TileWorld.Proofs.Random.Draws

/-!
# Draws lose nothing

In machine words a draw comes to what it comes to in numbers, without a sum that does not fit or a
conversion that cuts something off: a point in an area and a point near another one always
(`RandomStream.pointIn?_eq`, `RandomStream.pointNear?_eq`), a number between two ends exactly if there
are at most 2^31 numbers to draw from (`RandomStream.isSome_between?_iff`). With one number more, the
greatest that may be added to the lower end is no signed word.

Every number that may be drawn is drawn from some state of the stream
(`RandomStream.exists_between_eq`). All of this together is `RandomStream.exact_and_bounded`.
-/

namespace TileWorld

namespace RandomStream

open Word

/-! ### Numbers below a bound -/

/-- What is left of a division by a bound fits the word of the bound. -/
theorem below?_eq (r : RandomStream) (bound : UInt32) : r.below? bound = some (r.below bound) := by
  by_cases h : bound = 0
  · rw [below?, below, if_pos h, if_pos h]
  · have hpos : 0 < bound.toNat := Nat.pos_of_ne_zero fun h0 => h (UInt32.toNat_inj.mp h0)
    have hbound := bound.toNat_lt
    have hrest : (r.next.1 % bound.toUInt64).toNat < 2 ^ 32 := by
      rw [UInt64.toNat_mod, UInt32.toNat_toUInt64]
      exact Nat.lt_trans (Nat.mod_lt _ hpos) hbound
    have hexact :
        value (r.next.1 % bound.toUInt64).toUInt32 = value (r.next.1 % bound.toUInt64) := by
      simp only [value, UInt64.toNat_toUInt32, Nat.mod_eq_of_lt hrest]
    rw [below?, below, if_neg h, if_neg h]
    simp only [convert?, exactly?_of_eq hexact]
    rfl

/-- Every word is put out in some state other than two words of zero. -/
theorem exists_output_eq (bits : UInt64) : ∃ r : RandomStream, r ≠ ⟨0, 0⟩ ∧ r.output = bits := by
  have hone : (1 : UInt64) ≠ 0 := by decide
  refine ⟨⟨1, bits - 1⟩, fun h => hone (congrArg s0 h), ?_⟩
  rw [output, UInt64.add_comm]
  exact UInt64.sub_add_cancel bits 1

/-- Every number below a bound is drawn in some state: the one that puts out just this number. -/
theorem exists_below_eq {k bound : UInt32} (h : k < bound) :
    ∃ r : RandomStream, r ≠ ⟨0, 0⟩ ∧ (r.below bound).1 = k := by
  obtain ⟨r, hr, houtput⟩ := exists_output_eq k.toUInt64
  have hlt : k.toNat < bound.toNat := UInt32.lt_iff_toNat_lt.mp h
  have hne : bound ≠ 0 := fun h0 => Nat.not_lt_zero _ (h0 ▸ hlt)
  refine ⟨r, hr, UInt32.toNat_inj.mp ?_⟩
  rw [below, if_neg hne]
  show ((r.output % bound.toUInt64).toUInt32).toNat = _
  rw [houtput, UInt64.toNat_toUInt32, UInt64.toNat_mod, UInt32.toNat_toUInt64, UInt32.toNat_toUInt64,
    Nat.mod_eq_of_lt hlt, Nat.mod_eq_of_lt k.toNat_lt]

/-! ### Numbers between two ends -/

/-- The count of a range fits a 32-bit word, unless the range is that of all 32-bit words. -/
theorem exists_count_and_convert? {lo hi : Int32} (hle : lo.toInt ≤ hi.toInt) :
    ∃ distance n, minus? hi.toInt64 lo.toInt64 = some distance ∧ plus? distance 1 = some n ∧
      convert? lowHalf n =
        if hi.toInt - lo.toInt + 1 < 2 ^ 32 then some (count lo.toInt hi.toInt) else none := by
  obtain ⟨distance, n, hdistance, hn, hvalue⟩ := exists_count lo hi
  refine ⟨distance, n, hdistance, hn, ?_⟩
  split
  · rename_i hcount
    have hlow := toNat_lowHalf (n := n) (by omega) (by omega)
    have htoNat := toNat_count hle hcount
    have heq : lowHalf n = count lo.toInt hi.toInt := by
      rw [← UInt32.toNat_inj]
      omega
    rw [convert?, exactly?_of_eq hlow, heq]
  · have hlt := (lowHalf n).toNat_lt
    refine exactly?_of_ne fun heq => ?_
    simp only [value] at heq
    omega

/-- In words, a number is drawn by its distance from the lower end, which has to be a signed word. -/
theorem between?_of_lt (r : RandomStream) {lo hi : Int32} (hlt : lo.toInt < hi.toInt) :
    r.between? lo hi =
      if hi.toInt - lo.toInt + 1 < 2 ^ 32 then do
        let n ← plus? lo (← convert? UInt32.toInt32 (r.below (count lo.toInt hi.toInt)).1)
        return (n, (r.below (count lo.toInt hi.toInt)).2)
      else none := by
  have hne : ¬ hi ≤ lo := fun hle => Int.not_le.mpr hlt (Int32.le_iff_toInt_le.mp hle)
  obtain ⟨distance, n, hdistance, hn, hbound⟩ := exists_count_and_convert? (Int.le_of_lt hlt)
  rw [between?, if_neg hne, hdistance]
  simp only [Option.bind_eq_bind, Option.bind_some, hn, hbound]
  split
  · simp only [Option.bind_some, below?_eq]
  · rfl

/-- A range of at most 2^31 numbers can be drawn from in words. -/
theorem exists_between? (r : RandomStream) {lo hi : Int32} (hle : lo ≤ hi)
    (hcount : hi.toInt - lo.toInt + 1 ≤ 2 ^ 31) :
    ∃ n, r.between? lo hi = some (n, (r.between lo.toInt hi.toInt).2) ∧
      n.toInt = (r.between lo.toInt hi.toInt).1 := by
  rw [Int32.le_iff_toInt_le] at hle
  obtain heq | hlt := Int.le_iff_eq_or_lt.mp hle
  · obtain rfl := Int32.toInt_inj.mp heq
    exact ⟨lo, by rw [between?, if_pos (Int32.le_refl lo), between, if_pos (Int.le_refl _)],
      by rw [between, if_pos (Int.le_refl _)]⟩
  · have hlo := lo.le_toInt
    have hhi := hi.toInt_lt
    have hk := r.below_count_lt hle (by omega)
    -- the distance is less than the count, so that it is a signed word, and the sum ends before `hi`
    have hsigned := toInt_toInt32 (w := (r.below (count lo.toInt hi.toInt)).1) (by omega)
    obtain ⟨n, hsum, hn⟩ := exists_plus? (a := lo)
      (b := (r.below (count lo.toInt hi.toInt)).1.toInt32) (by omega) (by omega)
    rw [between?_of_lt r hlt, between_of_lt r hlt, if_pos (by omega), convert?, exactly?_of_eq hsigned]
    refine ⟨n, ?_, by rw [hn, hsigned]⟩
    simp only [Option.bind_eq_bind, Option.bind_some, hsum]
    rfl

/-- A range of more than 2^31 numbers cannot be drawn from in words in every state. -/
theorem exists_between?_eq_none {lo hi : Int32} (hcount : 2 ^ 31 < hi.toInt - lo.toInt + 1) :
    ∃ r : RandomStream, r.between? lo hi = none := by
  have hlt : lo.toInt < hi.toInt := by omega
  by_cases hfull : hi.toInt - lo.toInt + 1 < 2 ^ 32
  · -- a distance of 2^31 may be drawn, and it is no signed word
    have htoNat := toNat_count (Int.le_of_lt hlt) hfull
    have hmem : (2147483648 : UInt32) < count lo.toInt hi.toInt := by
      rw [UInt32.lt_iff_toNat_lt]
      show 2147483648 < _
      omega
    obtain ⟨r, -, hk⟩ := exists_below_eq hmem
    have hcut : convert? UInt32.toInt32 2147483648 = none := by decide
    refine ⟨r, ?_⟩
    rw [between?_of_lt r hlt, if_pos hfull, hk, hcut]
    rfl
  · -- the count of all signed words is cut off to zero
    exact ⟨default, by rw [between?_of_lt _ hlt, if_neg hfull]⟩

/-- Words are enough in every state exactly if there are at most 2^31 numbers to draw from. -/
theorem isSome_between?_iff {lo hi : Int32} (hle : lo ≤ hi) :
    (∀ r : RandomStream, (r.between? lo hi).isSome) ↔ hi.toInt - lo.toInt + 1 ≤ 2 ^ 31 := by
  constructor
  · intro hsome
    refine Int.not_lt.mp fun hcount => ?_
    obtain ⟨r, hnone⟩ := exists_between?_eq_none hcount
    have hr := hsome r
    rw [hnone] at hr
    cases hr
  · intro hcount r
    obtain ⟨n, hn, -⟩ := r.exists_between? hle hcount
    rw [hn]
    rfl

/-- Every number between two ends is drawn in some state. -/
theorem exists_between_eq {lo hi n : Int} (hlo : lo ≤ n) (hhi : n ≤ hi)
    (hcount : hi - lo + 1 < 2 ^ 32) :
    ∃ r : RandomStream, r ≠ ⟨0, 0⟩ ∧ (r.between lo hi).1 = n := by
  obtain rfl | hlt := Int.le_iff_eq_or_lt.mp (Int.le_trans hlo hhi)
  · obtain ⟨r, hr, -⟩ := exists_output_eq 0
    exact ⟨r, hr, by rw [between, if_pos (Int.le_refl _)]; omega⟩
  · have htoNat := toNat_count (Int.le_of_lt hlt) hcount
    have hk : (UInt32.ofNat (n - lo).toNat).toNat = (n - lo).toNat := by
      rw [UInt32.toNat_ofNat']
      omega
    have hmem : UInt32.ofNat (n - lo).toNat < count lo hi := by
      rw [UInt32.lt_iff_toNat_lt]
      omega
    obtain ⟨r, hr, hdraw⟩ := exists_below_eq hmem
    refine ⟨r, hr, ?_⟩
    rw [between_of_lt r hlt, hdraw, hk]
    omega

/-! ### Points -/

/-- A draw below a 16-bit bound is a 16-bit word. -/
theorem convert?_below (r : RandomStream) (n : UInt16) :
    ∃ d, convert? UInt32.toUInt16 (r.below n.toUInt32).1 = some d ∧
      d.toNat = (r.below n.toUInt32).1.toNat := by
  have hn := n.toNat_lt
  have hlt : (r.below n.toUInt32).1.toNat < 2 ^ 16 := by
    by_cases h : n = 0
    · rw [h]
      exact Nat.two_pow_pos 16
    · exact Nat.lt_trans (r.below_side_lt h) hn
  have hexact : (r.below n.toUInt32).1.toUInt16.toNat = (r.below n.toUInt32).1.toNat := by
    rw [UInt32.toNat_toUInt16, Nat.mod_eq_of_lt hlt]
  exact ⟨_, exactly?_of_eq (congrArg Int.ofNat hexact), hexact⟩

/-- Drawing a point in an area loses nothing. -/
theorem pointIn?_eq (r : RandomStream) (a : Area) : r.pointIn? a = some (r.pointIn a) := by
  obtain ⟨dx, hdx, hx⟩ := r.convert?_below a.w
  obtain ⟨dy, hdy, hy⟩ := (r.below a.w.toUInt32).2.convert?_below a.h
  simp only [pointIn?, below?_eq, Option.bind_eq_bind, Option.bind_some, hdx, hdy, saturatingSum_eq,
    hx, hy]
  rfl

/-- A centre and a distance that was drawn have a sum: both ends are far from those of a signed word. -/
theorem exists_between?_and_plus? (r : RandomStream) (c radius : UInt16) {back : Int32}
    (hback : back.toInt = -radius.toNat) : ∃ d x,
      r.between? back (widen radius) = some (d, (r.between (-radius.toNat) radius.toNat).2) ∧
        plus? (widen c) d = some x ∧
          x.toInt = c.toNat + (r.between (-radius.toNat) radius.toNat).1 := by
  have hc := c.toNat_lt
  have hradius := radius.toNat_lt
  have hreach := toInt_widen radius
  have hle : back ≤ widen radius := Int32.le_iff_toInt_le.mpr (by omega)
  obtain ⟨d, hd, hvalue⟩ := r.exists_between? hle (by omega)
  rw [hback, hreach] at hd hvalue
  have hends : -(radius.toNat : Int) ≤ radius.toNat := by omega
  obtain ⟨hlo, hhi⟩ := r.between_mem hends (by omega)
  have hcentre := toInt_widen c
  obtain ⟨x, hx, hsum⟩ := exists_plus? (a := widen c) (b := d) (by omega) (by omega)
  exact ⟨d, x, hd, hx, by rw [hsum, hcentre, hvalue]⟩

/-- Drawing a point near another loses nothing. -/
theorem pointNear?_eq (r : RandomStream) (c : Point) (radius : UInt16) :
    r.pointNear? c radius = some (r.pointNear c radius) := by
  have hradius := radius.toNat_lt
  have hreach := toInt_widen radius
  have hback : (-widen radius).toInt = -radius.toNat := by
    rw [Int32.toInt_neg, hreach]
    exact Int.bmod_eq_of_le (by omega) (by omega)
  have hopposite : opposite? (widen radius) = some (-widen radius) :=
    exactly?_of_eq (by simp only [value, hback, hreach])
  obtain ⟨dx, x, hdx, hx, hsumx⟩ := r.exists_between?_and_plus? c.x radius hback
  obtain ⟨dy, y, hdy, hy, hsumy⟩ :=
    (r.between (-radius.toNat) radius.toNat).2.exists_between?_and_plus? c.y radius hback
  simp only [pointNear?, hopposite, hdx, hx, hdy, hy, convert?_clamp, hsumx, hsumy,
    Option.bind_eq_bind, Option.bind_some]
  rfl

/-- In every state a number is drawn in words from each range of at most 2^31 numbers, the same as
without words, and it lies in the range. A point is drawn in words from each area that is not empty, the
same as without words, and it lies in the area. A point is drawn in words near each point, the same as
without words, and it lies near that point on each axis. Every number of a range of at most 2^31 numbers
is drawn in some state. -/
theorem exact_and_bounded :
    (∀ (r : RandomStream) (lo hi : Int32), lo ≤ hi → hi.toInt - lo.toInt + 1 ≤ 2 ^ 31 →
      ∃ n, r.between? lo hi = some (n, (r.between lo.toInt hi.toInt).2) ∧
        n.toInt = (r.between lo.toInt hi.toInt).1 ∧ lo ≤ n ∧ n ≤ hi) ∧
    (∀ (r : RandomStream) (a : Area), a.w ≠ 0 → a.h ≠ 0 →
      r.pointIn? a = some (r.pointIn a) ∧ a.contains (r.pointIn a).1 = true) ∧
    (∀ (r : RandomStream) (c : Point) (radius : UInt16),
      r.pointNear? c radius = some (r.pointNear c radius) ∧
        (r.pointNear c radius).1.inRange c radius = true) ∧
    ∀ lo hi n : Int32, lo ≤ n → n ≤ hi → hi.toInt - lo.toInt + 1 ≤ 2 ^ 31 →
      ∃ r r' : RandomStream, r ≠ ⟨0, 0⟩ ∧ r.between? lo hi = some (n, r') := by
  refine ⟨fun r lo hi hle hcount => ?_,
    fun r a hw hh => ⟨r.pointIn?_eq a, r.contains_pointIn hw hh⟩,
    fun r c radius => ⟨r.pointNear?_eq c radius, r.inRange_pointNear c radius⟩,
    fun lo hi n hlo hhi hcount => ?_⟩
  · obtain ⟨n, hdraw, hn⟩ := r.exists_between? hle hcount
    obtain ⟨hlo, hhi⟩ := r.between_mem (Int32.le_iff_toInt_le.mp hle) (by omega)
    rw [← hn] at hlo hhi
    exact ⟨n, hdraw, hn, Int32.le_iff_toInt_le.mpr hlo, Int32.le_iff_toInt_le.mpr hhi⟩
  · obtain ⟨r, hr, hvalue⟩ := exists_between_eq (Int32.le_iff_toInt_le.mp hlo)
      (Int32.le_iff_toInt_le.mp hhi) (by omega)
    obtain ⟨n', hdraw, hn'⟩ := r.exists_between? (Int32.le_trans hlo hhi) hcount
    obtain rfl := Int32.toInt_inj.mp (hn'.trans hvalue)
    exact ⟨r, _, hr, hdraw⟩

/-- The negative words are a range of 2^31 numbers, and some state gives the last one of them. An area
may reach past the end of the coordinate space. -/
theorem exact_and_bounded_at_ends :
    (Int32.minValue ≤ -1 ∧ (-1 : Int32).toInt - Int32.minValue.toInt + 1 ≤ 2 ^ 31 ∧
      ∃ n, (ofSeed 7).between? Int32.minValue (-1) =
          some (n, ((ofSeed 7).between Int32.minValue.toInt (-1 : Int32).toInt).2) ∧
        n.toInt = ((ofSeed 7).between Int32.minValue.toInt (-1 : Int32).toInt).1 ∧
        Int32.minValue ≤ n ∧ n ≤ -1) ∧
    ((100 : UInt16) ≠ 0 ∧ (ofSeed 7).pointIn? ⟨65530, 65530, 100, 100⟩ =
        some ((ofSeed 7).pointIn ⟨65530, 65530, 100, 100⟩) ∧
      Area.contains ⟨65530, 65530, 100, 100⟩ ((ofSeed 7).pointIn ⟨65530, 65530, 100, 100⟩).1 = true) ∧
    ∃ r r' : RandomStream, r ≠ ⟨0, 0⟩ ∧ r.between? Int32.minValue (-1) = some (-1, r') := by
  have hle : Int32.minValue ≤ -1 := by decide
  have hcount : (-1 : Int32).toInt - Int32.minValue.toInt + 1 ≤ 2 ^ 31 := by decide
  have hsize : (100 : UInt16) ≠ 0 := by decide
  obtain ⟨hnumbers, hareas, -, hall⟩ := exact_and_bounded
  exact ⟨⟨hle, hcount, hnumbers (ofSeed 7) _ _ hle hcount⟩,
    ⟨hsize, hareas (ofSeed 7) ⟨65530, 65530, 100, 100⟩ hsize hsize⟩,
    hall _ _ _ hle (Int32.le_refl _) hcount⟩

end RandomStream

end TileWorld
