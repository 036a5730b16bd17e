import Aoo.Lib.Chunks
import Aoo.Stream.Sink

/-!
# The frames that a block misses

`check_missing_blocks` looks at a block through windows of 16 frames and makes a
bitset of each. Up to 32752 frames the windows cover the block one behind the
other (`windows_eq`). With more frames the offset of the window, an `int16_t`,
runs over and the loop does not end (`windows_length`).
-/

namespace Aoo.Stream

open Lib

/-! ## Received frames -/

/-- The number of frames that `f` gives out of `n`. -/
def storedCount (n : Nat) (f : Nat → Option (List UInt8)) : Nat :=
  ((List.range n).filter fun i => (f i).isSome).length

theorem storedCount_le (n : Nat) (f : Nat → Option (List UInt8)) : storedCount n f ≤ n :=
  (List.length_filter_le ..).trans_eq List.length_range

theorem storedCount_none (n : Nat) : storedCount n (fun _ => none) = 0 := by
  unfold storedCount
  simp

/-- All frames are there when their number is that of the block. -/
theorem storedCount_eq {n : Nat} {f : Nat → Option (List UInt8)} (h : storedCount n f = n)
    {i : Nat} (hi : i < n) : (f i).isSome = true := by
  have hall := List.length_filter_eq_length_iff.mp (h.trans List.length_range.symm)
  exact hall i (List.mem_range.mpr hi)

theorem storedCount_pos {n : Nat} {f : Nat → Option (List UInt8)} {i : Nat} (hi : i < n)
    (h : (f i).isSome = true) : 0 < storedCount n f :=
  List.length_pos_of_mem (List.mem_filter.mpr ⟨List.mem_range.mpr hi, h⟩)

/-- One more frame counts once. -/
theorem storedCount_update {n : Nat} {f : Nat → Option (List UInt8)} {i : Nat} (hi : i < n)
    (hnone : f i = none) (frame : List UInt8) :
    storedCount n (Function.update f i (some frame)) = storedCount n f + 1 := by
  unfold storedCount
  rw [← List.countP_eq_length_filter, ← List.countP_eq_length_filter]
  obtain ⟨k, rfl⟩ : ∃ k, n = i + (k + 1) := ⟨n - i - 1, by omega⟩
  have hsplit : List.range (i + (k + 1)) = List.range' 0 i ++ i :: List.range' (i + 1) k := by
    rw [List.range_eq_range', ← List.range'_append_1, Nat.zero_add, List.range'_succ]
  have hsame : ∀ l : List Nat, i ∉ l →
      l.countP (fun j => (Function.update f i (some frame) j).isSome) =
        l.countP fun j => (f j).isSome := by
    intro l hl
    refine List.countP_congr fun j hj => ?_
    rw [Function.update_of_ne fun hc : j = i => hl (hc ▸ hj)]
  rw [hsplit, List.countP_append, List.countP_append, List.countP_cons, List.countP_cons,
    hsame _ (by simp), hsame _ (by simp), Function.update_self, hnone]
  simp only [Option.isSome_some, Option.isSome_none, if_true, Bool.false_eq_true, if_false]
  omega

/-- The block stores the frames that `f` gives, and counts them. -/
structure ReceivedBlock.Holds (b : ReceivedBlock) (n : Nat) (f : Nat → Option (List UInt8)) :
    Prop where
  stores : b.frames.Stores n f
  received : b.receivedFrames = storedCount n f

/-- Nothing is known of the block but its number. -/
structure ReceivedBlock.Unknown (b : ReceivedBlock) : Prop where
  received : b.receivedFrames = -1
  size : b.numFrames = 0

theorem ReceivedBlock.Holds.numFrames_eq {b : ReceivedBlock} {n : Nat}
    {f : Nat → Option (List UInt8)} (h : b.Holds n f) : b.numFrames = n := h.stores.size

/-- A block with a first packet has no frames yet. -/
theorem ReceivedBlock.holds_init (b : ReceivedBlock) {d : DataPacket} {n : Nat} (hn : n ≤ 32767)
    (hd : d.numFrames = n) : (b.init d).Holds n fun _ => none := by
  refine ⟨?_, ?_⟩
  · show (b.frames.init d.numFrames).Stores n _
    rw [hd]
    exact b.frames.stores_init hn
  · rw [storedCount_none]
    rfl

/-- A frame that was missing is added to the others. -/
theorem ReceivedBlock.Holds.addFrame {b : ReceivedBlock} {n : Nat}
    {f : Nat → Option (List UInt8)} (h : b.Holds n f) {i : Nat} (hi : i < n) (hnone : f i = none)
    (frame : List UInt8) : (b.addFrame i frame).Holds n (Function.update f i (some frame)) := by
  refine ⟨h.stores.addFrame hi hnone frame, ?_⟩
  have hcount := storedCount_update hi hnone frame
  have hle := storedCount_le n (Function.update f i (some frame))
  have hn := h.stores.bound
  show toInt16 (b.receivedFrames + 1) = _
  rw [h.received, toInt16_of_range (by omega) (by omega), hcount, Nat.cast_add, Nat.cast_one]

namespace SourceDesc

/-! ## Windows -/

/-- The windows of a block with `n` frames. -/
theorem windows_from {b : ReceivedBlock} {n : Nat} (hb : b.numFrames = n) (hn : n ≤ 32752)
    (fuel k : Nat) (hfuel : numChunks n 16 ≤ k + fuel) (hk : k ≤ numChunks n 16) :
    windows b fuel ((16 * k : Nat) : Int) =
      (List.range' k (numChunks n 16 - k)).map fun j : Nat => ((16 * j : Nat) : Int) := by
  induction fuel generalizing k with
  | zero =>
    rw [show numChunks n 16 - k = 0 by omega]
    rfl
  | succ fuel ih =>
    have hcover := @le_numChunks_mul n 16 (by decide)
    rw [windows, hb]
    split
    next hlt =>
      have hne : k ≠ numChunks n 16 := fun hc => by
        rw [← hc] at hcover
        omega
      have hnext : toInt16 (((16 * k : Nat) : Int) + 16) = ((16 * (k + 1) : Nat) : Int) := by
        rw [toInt16_of_range (by omega) (by omega)]
        push_cast
        omega
      rw [hnext, ih (k + 1) (by omega) (by omega),
        show numChunks n 16 - k = (numChunks n 16 - (k + 1)) + 1 by omega, List.range'_succ,
        List.map_cons]
    next hge =>
      have heq : k = numChunks n 16 := by
        by_contra hne
        have := @mul_lt_of_lt_numChunks n 16 k (by decide) (by omega)
        omega
      rw [← heq, Nat.sub_self]
      rfl

/-- **The windows cover the block**, one behind the other. -/
theorem windows_eq {b : ReceivedBlock} {n : Nat} (hb : b.numFrames = n) (hn : n ≤ 32752) :
    windows b 4096 0 = (List.range (numChunks n 16)).map fun j : Nat => ((16 * j : Nat) : Int) := by
  have hlt : numChunks n 16 ≤ 4096 := by
    unfold numChunks
    split <;> omega
  have h := windows_from hb hn 4096 0 (by omega) (Nat.zero_le _)
  rw [Nat.sub_zero, ← List.range_eq_range'] at h
  exact h

/-- Behind the last multiple of 16 the offset starts again with the smallest. -/
theorem toInt16_next {offset : Int} (h16 : offset % 16 = 0) (hlow : -32768 ≤ offset)
    (hhigh : offset ≤ 32752) :
    toInt16 (offset + 16) % 16 = 0 ∧ -32768 ≤ toInt16 (offset + 16) ∧
      toInt16 (offset + 16) ≤ 32752 := by
  by_cases hlast : offset = 32752
  · subst hlast
    decide +kernel
  · rw [toInt16_of_range (by omega) (by omega)]
    omega

/-- **The loop does not end** for a block with more than 32752 frames. -/
theorem windows_length {b : ReceivedBlock} (hb : 32752 < b.numFrames) (fuel : Nat) :
    ∀ offset : Int, offset % 16 = 0 → -32768 ≤ offset → offset ≤ 32752 →
      (windows b fuel offset).length = fuel := by
  induction fuel with
  | zero => exact fun _ _ _ _ => rfl
  | succ fuel ih =>
    intro offset h16 hlow hhigh
    obtain ⟨h1, h2, h3⟩ := toInt16_next h16 hlow hhigh
    rw [windows, if_pos (by omega), List.length_cons, ih _ h1 h2 h3]

/-! ## Bitsets -/

theorem foldl_testBit (missing : Nat → Bool) (l : List Nat) (bitset j : Nat) :
    (l.foldl (fun bitset (i : Nat) => if missing i then bitset ||| 1 <<< i else bitset)
      bitset).testBit j = (bitset.testBit j || (decide (j ∈ l) && missing j)) := by
  induction l generalizing bitset with
  | nil => simp
  | cons i l ih =>
    rw [List.foldl_cons, ih]
    by_cases hij : i = j
    · subst hij
      cases missing i <;> simp [Nat.testBit_or]
    · have hji : ¬ j = i := fun hc => hij hc.symm
      split <;> simp [Nat.testBit_or, Nat.one_shiftLeft, hij, hji]

/-- The bits of a window are the frames that are missing. -/
theorem missingBits_testBit (b : ReceivedBlock) (offset : Int) (i : Nat) :
    (missingBits b offset).testBit i =
      (decide (i < 16) && decide (offset + i < b.numFrames) && !b.hasFrame (offset + i)) := by
  have hfold := foldl_testBit (fun i => !b.hasFrame (offset + i)) (window b offset) 0 i
  have hbody : (fun (bitset i : Nat) =>
      if (!b.hasFrame (offset + i)) = true then bitset ||| 1 <<< i else bitset) =
      fun bitset (i : Nat) => if b.hasFrame (offset + i) then bitset else bitset ||| 1 <<< i := by
    funext bitset i
    cases b.hasFrame (offset + i) <;> rfl
  rw [hbody] at hfold
  have hmem : decide (i ∈ window b offset) =
      (decide (i < 16) && decide (offset + i < b.numFrames)) := by
    simp [window]
  rw [missingBits, hfold, Nat.zero_testBit, Bool.false_or, hmem]

theorem missingBits_lt (b : ReceivedBlock) (offset : Int) : missingBits b offset < 65536 := by
  refine Nat.lt_pow_two_of_testBit (n := 16) _ fun i hi => ?_
  rw [missingBits_testBit, decide_eq_false (by omega), Bool.false_and, Bool.false_and]

/-- `check_missing_blocks` asks `has_frame` for frames of the block only. -/
theorem blockCalls_index {b : ReceivedBlock} {n : Nat} (hb : b.numFrames = n) (hn : n ≤ 32752)
    {c : Call} (hc : c ∈ blockCalls b) : ∃ i < n, c = .hasFrame ((i : Nat) : Int) n := by
  unfold blockCalls at hc
  split at hc
  next =>
    obtain ⟨offset, hoff, hc⟩ := List.mem_flatMap.mp hc
    obtain ⟨i, hi, rfl⟩ := List.mem_map.mp hc
    rw [windows_eq hb hn] at hoff
    obtain ⟨k, -, rfl⟩ := List.mem_map.mp hoff
    have hlt := of_decide_eq_true (List.mem_filter.mp hi).2
    rw [hb] at hlt ⊢
    exact ⟨16 * k + i, by omega, by rw [Nat.cast_add]⟩
  next => cases hc

end SourceDesc

end Aoo.Stream
