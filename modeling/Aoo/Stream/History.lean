import Aoo.Lib.Ring
import Aoo.Lib.Search
import Aoo.Stream.Packet

/-!
# The history buffer of a source

`sent_block` and `history_buffer` of `packet_buffer.cpp`. A source keeps the
last blocks that it has sent so that it can send frames of them again. The
buffer is a ring; `find` looks a block up by its sequence number with two binary
searches, which relies on the blocks being in ascending order.

`HistoryBuffer.Keeps` says which blocks the buffer holds, and `find_eq` that a
block is found as long as the sequence numbers ascend.
-/

namespace Aoo.Stream

open Lib

/-- `sent_block` -/
structure SentBlock where
  sequence : Int := -1
  messageSize : Int := 0
  samplerate : Nat := 0
  flags : Nat := 0
  numFrames : Int := 0
  frameSize : Int := 0
  protocolVersion : UInt16 := 0
  transportProfile : UInt8 := 0
  pcmFormat : UInt8 := 0
  absoluteSamplePosition : UInt64 := 0
  sourceTimestamp : UInt64 := 0
  blockFrames : UInt16 := 0
  channelCount : UInt16 := 0
  buffer : List UInt8 := []
  deriving DecidableEq, Repr

/-- `sent_block::set`; `data` is what `d.data` points at. Frame count and frame
size are stored as `int16_t`, the time tag is not stored. -/
def SentBlock.set (d : DataPacket) (data : List UInt8) (frameSize : Int) : SentBlock where
  sequence := d.sequence
  messageSize := d.msgSize
  samplerate := d.samplerate
  flags := d.flags
  numFrames := toInt16 d.numFrames
  frameSize := toInt16 frameSize
  protocolVersion := d.protocolVersion
  transportProfile := d.transportProfile
  pcmFormat := d.pcmFormat
  absoluteSamplePosition := d.absoluteSamplePosition
  sourceTimestamp := d.sourceTimestamp
  blockFrames := d.blockFrames
  channelCount := d.channelCount
  buffer := if d.totalSize > 0 then data.take d.totalSize.toNat else []

/-- `sent_block::get_frame`: the bytes copied, none when `count` is too small.
The comparison is unsigned, so a negative size never fits. -/
def SentBlock.getFrame (b : SentBlock) (index count : Int) : List UInt8 :=
  let onset := index * b.frameSize
  let size := if index = b.numFrames - 1 then b.buffer.length - onset else b.frameSize
  if 0 ≤ size ∧ size ≤ count then (b.buffer.drop onset.toNat).take size.toNat else []

/-- `history_buffer` -/
structure HistoryBuffer where
  buffer : List SentBlock := []
  head : Nat := 0
  size : Nat := 0
  deriving DecidableEq, Repr

namespace HistoryBuffer

def capacity (h : HistoryBuffer) : Nat := h.buffer.length

/-- `history_buffer::clear` -/
def clear (h : HistoryBuffer) : HistoryBuffer := { h with head := 0, size := 0 }

/-- `history_buffer::resize` -/
def resize (h : HistoryBuffer) (n : Nat) : HistoryBuffer :=
  clear { h with buffer := h.buffer.take n ++ List.replicate (n - h.buffer.length) {} }

/-- `dofind`: binary search for `seq` in the slots from `first` on. -/
def doFind (h : HistoryBuffer) (seq : Int) (first last : Nat) : Option SentBlock :=
  let result := lowerBound (fun i => decide ((h.buffer.getD i {}).sequence < seq))
    (last - first) first (last - first)
  if result ≠ last ∧ (h.buffer.getD result {}).sequence = seq then some (h.buffer.getD result {})
  else none

/-- The slot of the oldest block: `tail` of `history_buffer::find`. -/
def tail (h : HistoryBuffer) : Nat := if h.size = h.capacity then h.head else 0

/-- `history_buffer::find` -/
def find (h : HistoryBuffer) (seq : Int) : Option SentBlock :=
  if h.size > 0 then
    if seq < (h.buffer.getD h.tail {}).sequence then none
    else if h.head ≠ h.tail then h.doFind seq h.tail h.head
    else
      match h.doFind seq 0 h.head with
      | some b => some b
      | none => h.doFind seq h.head h.capacity
  else none

/-- `history_buffer::push`, with the block that is assigned to the new slot. -/
def push (h : HistoryBuffer) (b : SentBlock) : HistoryBuffer where
  buffer := h.buffer.set h.head b
  head := if h.head + 1 ≥ h.capacity then 0 else h.head + 1
  size := if h.size < h.capacity then h.size + 1 else h.size

/-! ## What the buffer holds -/

/-- The buffer keeps the blocks `bs`, oldest first. -/
structure Keeps (h : HistoryBuffer) (bs : List SentBlock) : Prop where
  holds : Holds h.buffer h.tail bs
  size : h.size = bs.length
  head : h.head = (h.tail + bs.length) % h.capacity

theorem keeps_clear {h : HistoryBuffer} (hc : 0 < h.capacity) : h.clear.Keeps [] := by
  have htail : h.clear.tail = 0 := if_neg (show ¬ 0 = h.capacity by omega)
  refine ⟨?_, rfl, ?_⟩
  · rw [htail]
    exact holds_nil hc
  · rw [htail]
    simp [clear]

theorem capacity_push (h : HistoryBuffer) (b : SentBlock) :
    (h.push b).capacity = h.capacity := by
  simp [capacity, push]

/-- A push adds the block and drops the oldest one when the buffer is full. -/
theorem keeps_push {h : HistoryBuffer} {bs : List SentBlock} (hk : h.Keeps bs) (b : SentBlock) :
    (h.push b).Keeps ((if bs.length < h.capacity then bs else bs.drop 1) ++ [b]) := by
  have hstart := hk.holds.start
  have hfits := hk.holds.fits
  have hcap : 0 < h.capacity := by
    unfold capacity
    omega
  by_cases hroom : bs.length < h.capacity
  · -- not full: the tail is slot 0
    have htail : h.tail = 0 := by
      rw [tail, if_neg (by rw [hk.size]; omega)]
    have hhead : h.head = bs.length := by
      rw [hk.head, htail, Nat.zero_add, Nat.mod_eq_of_lt hroom]
    have hsize : (h.push b).size = bs.length + 1 := by
      simp only [push, hk.size, if_pos hroom]
    have hnew : (h.push b).tail = 0 := by
      rw [tail, hsize, capacity_push]
      split
      next hfull => simp only [push, hhead]; rw [if_pos (by omega)]
      next => rfl
    have hpush := hk.holds.push hroom b
    have hmod : bs.length % h.buffer.length = bs.length := Nat.mod_eq_of_lt hroom
    rw [htail, Nat.zero_add, hmod] at hpush
    rw [if_pos hroom]
    refine ⟨?_, ?_, ?_⟩
    · rw [hnew]
      simpa only [push, hhead] using hpush
    · rw [hsize, List.length_append, List.length_singleton]
    · rw [hnew, capacity_push, List.length_append, List.length_singleton, Nat.zero_add]
      simp only [push, hhead]
      split
      next => rw [show bs.length + 1 = h.capacity by omega, Nat.mod_self]
      next => rw [Nat.mod_eq_of_lt (by omega)]
  · have hfull : bs.length = h.capacity := by
      unfold capacity at hroom ⊢
      omega
    have htail : h.tail = h.head := by
      rw [tail, if_pos (by rw [hk.size]; exact hfull)]
    cases bs with
    | nil =>
      rw [List.length_nil] at hfull
      omega
    | cons x xs =>
      have hsize : (h.push b).size = (x :: xs).length := by
        simp only [push, hk.size, if_neg hroom]
      have hhead : (h.push b).head = (h.head + 1) % h.capacity := by
        simp only [push]
        split
        next hge =>
          have : h.head + 1 = h.capacity := by
            rw [htail] at hstart
            unfold capacity at hge ⊢
            omega
          rw [this, Nat.mod_self]
        next => rw [Nat.mod_eq_of_lt (by omega)]
      have hnew : (h.push b).tail = (h.head + 1) % h.capacity := by
        rw [tail, hsize, capacity_push, if_pos hfull, hhead]
      rw [if_neg hroom, List.drop_succ_cons, List.drop_zero]
      have hpush := hk.holds.push_full hfull b
      rw [htail] at hpush
      refine ⟨?_, ?_, ?_⟩
      · rw [hnew]
        exact hpush
      · rw [hsize, List.length_append, List.length_singleton, List.length_cons]
      · rw [List.length_cons] at hfull
        rw [hnew, capacity_push, hhead, List.length_append, List.length_singleton, hfull,
          Nat.add_mod_right, Nat.mod_mod]

/-! ## Finding a block -/

theorem Keeps.capacity_pos {h : HistoryBuffer} {bs : List SentBlock} (hk : h.Keeps bs) :
    0 < h.capacity := by
  have := hk.holds.start
  unfold capacity
  omega

theorem Keeps.getD_slot {h : HistoryBuffer} {bs : List SentBlock} (hk : h.Keeps bs) {i : Nat}
    (hi : i < bs.length) : h.buffer.getD ((h.tail + i) % h.capacity) {} = bs[i] := by
  have := hk.holds.at_eq i hi
  rw [List.getElem?_eq_getElem hi] at this
  rw [List.getD_eq_getElem?_getD, capacity, this, Option.getD_some]

/-- Every slot that `find` searches belongs to a block of the buffer. -/
theorem Keeps.slot_mem {h : HistoryBuffer} {bs : List SentBlock} (hk : h.Keeps bs) {j : Nat}
    (hj : j < h.capacity) (hlow : h.tail = 0 → j < h.head ∨ bs.length = h.capacity) :
    ∃ (i : Nat) (hi : i < bs.length), h.buffer.getD j {} = bs[i] ∧
      (h.tail + i) % h.capacity = j := by
  have hcap := hk.capacity_pos
  have hstart : h.tail < h.capacity := hk.holds.start
  by_cases hfull : bs.length = h.capacity
  · obtain ⟨i, hi, hslot⟩ : ∃ i < h.capacity, (h.tail + i) % h.capacity = j := by
      by_cases hge : h.tail ≤ j
      · exact ⟨j - h.tail, by omega, by rw [Nat.add_sub_cancel' hge, Nat.mod_eq_of_lt hj]⟩
      · refine ⟨j + h.capacity - h.tail, by omega, ?_⟩
        rw [show h.tail + (j + h.capacity - h.tail) = j + h.capacity by omega, Nat.add_mod_right,
          Nat.mod_eq_of_lt hj]
    refine ⟨i, by omega, ?_, hslot⟩
    rw [← hslot]
    exact hk.getD_slot (by omega)
  · have htail : h.tail = 0 := by
      rw [tail, if_neg (by rw [hk.size]; exact hfull)]
    have hfits : bs.length ≤ h.capacity := hk.holds.fits
    have hhead : h.head = bs.length := by
      rw [hk.head, htail, Nat.zero_add, Nat.mod_eq_of_lt (by omega)]
    have hlt : j < bs.length := by
      have := (hlow htail).resolve_right hfull
      omega
    have hslot : (h.tail + j) % h.capacity = j := by
      rw [htail, Nat.zero_add, Nat.mod_eq_of_lt hj]
    refine ⟨j, hlt, ?_, hslot⟩
    have := hk.getD_slot hlt
    rwa [hslot] at this

/-- What a search returns stands in the range and has the number. -/
theorem doFind_some {h : HistoryBuffer} {seq : Int} {first last : Nat} {b : SentBlock}
    (hle : first ≤ last) (hf : h.doFind seq first last = some b) :
    ∃ j, first ≤ j ∧ j < last ∧ b = h.buffer.getD j {} ∧ b.sequence = seq := by
  obtain ⟨h1, h2⟩ := @lowerBound_mem (fun i => decide ((h.buffer.getD i {}).sequence < seq))
    (last - first) first (last - first) (Nat.le_refl _)
  unfold doFind at hf
  simp only at hf
  split at hf
  next hc =>
    cases hf
    exact ⟨_, h1, by omega, rfl, hc.2⟩
  next => cases hf

/-- In a range of ascending numbers a search finds what is there. -/
theorem doFind_eq {h : HistoryBuffer} {seq : Int} {first last k : Nat}
    (hk : first ≤ k ∧ k < last) (hseq : (h.buffer.getD k {}).sequence = seq)
    (hasc : ∀ i j, first ≤ i → i < j → j < last →
      (h.buffer.getD i {}).sequence < (h.buffer.getD j {}).sequence) :
    h.doFind seq first last = some (h.buffer.getD k {}) := by
  have hbound : lowerBound (fun i => decide ((h.buffer.getD i {}).sequence < seq))
      (last - first) first (last - first) = k := by
    refine lowerBound_eq _ (Nat.le_refl _) (by omega) (fun i h1 h2 => ?_)
    rw [decide_eq_true_eq]
    constructor
    · intro hlt
      by_contra hge
      rcases Nat.lt_or_eq_of_le (Nat.le_of_not_lt hge) with hki | hki
      · have := hasc k i hk.1 hki (by omega)
        omega
      · rw [← hki] at hlt
        omega
    · intro hik
      have := hasc i k h1 hik hk.2
      omega
  unfold doFind
  rw [hbound, if_pos ⟨by omega, hseq⟩]

/-- While the buffer is not full, the blocks start at slot 0. -/
theorem Keeps.head_eq {h : HistoryBuffer} {bs : List SentBlock} (hk : h.Keeps bs)
    (hnot : bs.length ≠ h.capacity) : h.tail = 0 ∧ h.head = bs.length := by
  have htail : h.tail = 0 := if_neg (by rw [hk.size]; exact hnot)
  have hfits : bs.length ≤ h.capacity := hk.holds.fits
  refine ⟨htail, ?_⟩
  rw [hk.head, htail, Nat.zero_add, Nat.mod_eq_of_lt (by omega)]

theorem Keeps.tail_eq {h : HistoryBuffer} {bs : List SentBlock} (hk : h.Keeps bs)
    (hfull : bs.length = h.capacity) : h.tail = h.head :=
  if_pos (by rw [hk.size]; exact hfull)

/-- **`find` returns a block of the buffer** that has the number. -/
theorem find_some {h : HistoryBuffer} {bs : List SentBlock} (hk : h.Keeps bs) {seq : Int}
    {b : SentBlock} (hf : h.find seq = some b) : b ∈ bs ∧ b.sequence = seq := by
  have hheadlt : h.head < h.capacity := by
    rw [hk.head]
    exact Nat.mod_lt _ hk.capacity_pos
  have hmem : ∀ j, j < h.capacity → (h.tail = 0 → j < h.head ∨ bs.length = h.capacity) →
      h.buffer.getD j {} ∈ bs := by
    intro j hj hlow
    obtain ⟨i, hi, heq, -⟩ := hk.slot_mem hj hlow
    rw [heq]
    exact List.getElem_mem hi
  unfold find at hf
  split at hf
  next hpos =>
    split at hf
    next => cases hf
    next =>
      split at hf
      next hne =>
        have hnot : bs.length ≠ h.capacity := fun hc => hne (hk.tail_eq hc).symm
        rw [(hk.head_eq hnot).1] at hf
        obtain ⟨j, -, h2, rfl, hseq⟩ := doFind_some (Nat.zero_le _) hf
        exact ⟨hmem j (by omega) (fun _ => Or.inl h2), hseq⟩
      next heq =>
        have hall : bs.length = h.capacity := by
          by_contra hnot
          obtain ⟨htail, hhead⟩ := hk.head_eq hnot
          have := hk.size
          omega
        split at hf
        next b' hb' =>
          cases hf
          obtain ⟨j, -, h2, rfl, hseq⟩ := doFind_some (Nat.zero_le _) hb'
          exact ⟨hmem j (by omega) (fun _ => Or.inr hall), hseq⟩
        next =>
          obtain ⟨j, -, h2, rfl, hseq⟩ := doFind_some (Nat.le_of_lt hheadlt) hf
          exact ⟨hmem j h2 (fun _ => Or.inr hall), hseq⟩
  next => cases hf

/-- The numbers of the blocks ascend. -/
def Ascending (bs : List SentBlock) : Prop := bs.Pairwise fun a b => a.sequence < b.sequence

theorem Ascending.lt {bs : List SentBlock} (h : Ascending bs) {i j : Nat} (hj : j < bs.length)
    (hij : i < j) : bs[i].sequence < bs[j].sequence :=
  List.pairwise_iff_getElem.mp h i j (by omega) hj hij

/-- Slots whose positions in the queue ascend have ascending numbers. -/
theorem Keeps.slot_lt {h : HistoryBuffer} {bs : List SentBlock} (hk : h.Keeps bs)
    (hasc : Ascending bs) {i j : Nat} (hij : i < j) (hj : j < bs.length) :
    (h.buffer.getD ((h.tail + i) % h.capacity) {}).sequence <
      (h.buffer.getD ((h.tail + j) % h.capacity) {}).sequence := by
  rw [hk.getD_slot (by omega), hk.getD_slot hj]
  exact hasc.lt hj hij

/-- **A block of the buffer is found** while the numbers ascend. -/
theorem find_eq {h : HistoryBuffer} {bs : List SentBlock} (hk : h.Keeps bs) (hasc : Ascending bs)
    {i : Nat} (hi : i < bs.length) : h.find bs[i].sequence = some bs[i] := by
  have hcap := hk.capacity_pos
  have hstart : h.tail < h.capacity := hk.holds.start
  have hfits : bs.length ≤ h.capacity := hk.holds.fits
  have hsize := hk.size
  -- the oldest block is not newer than the one that is looked for
  have hold : ¬ bs[i].sequence < (h.buffer.getD h.tail {}).sequence := by
    have h0 := @Keeps.getD_slot h bs hk 0 (by omega)
    rw [Nat.add_zero, Nat.mod_eq_of_lt hstart] at h0
    rw [h0]
    rcases Nat.eq_zero_or_pos i with rfl | hpos
    · omega
    · have := hasc.lt hi hpos
      omega
  unfold find
  rw [if_pos (by omega), if_neg hold]
  by_cases hfull : bs.length = h.capacity
  · have htail := hk.tail_eq hfull
    rw [if_neg (not_not.mpr htail.symm)]
    -- the two halves of the ring, as positions of the queue
    have hback : ∀ j, h.tail ≤ j → j < h.capacity → (h.tail + (j - h.tail)) % h.capacity = j := by
      intro j h1 h2
      rw [Nat.add_sub_cancel' h1, Nat.mod_eq_of_lt h2]
    have hfront : ∀ j < h.tail, (h.tail + (j + h.capacity - h.tail)) % h.capacity = j := by
      intro j h1
      rw [show h.tail + (j + h.capacity - h.tail) = j + h.capacity by omega, Nat.add_mod_right,
        Nat.mod_eq_of_lt (by omega)]
    by_cases hwhere : i < h.capacity - h.tail
    · have hslot : (h.tail + i) % h.capacity = h.tail + i := Nat.mod_eq_of_lt (by omega)
      have hnone : h.doFind bs[i].sequence 0 h.head = none := by
        by_contra hc
        obtain ⟨b, hb⟩ := Option.ne_none_iff_exists'.mp hc
        obtain ⟨j, -, hj, rfl, hseq⟩ := doFind_some (Nat.zero_le _) hb
        rw [← htail] at hj
        have hlt := @Keeps.slot_lt h bs hk hasc i (j + h.capacity - h.tail) (by omega) (by omega)
        rw [hk.getD_slot hi, hfront j hj] at hlt
        omega
      rw [hnone]
      have hget := hk.getD_slot hi
      rw [hslot] at hget
      have hfind := @doFind_eq h bs[i].sequence h.tail h.capacity (h.tail + i) (by omega)
        (by rw [hget]) (fun a b h1 h2 h3 => by
          have := @Keeps.slot_lt h bs hk hasc (a - h.tail) (b - h.tail) (by omega) (by omega)
          rwa [hback a h1 (by omega), hback b (by omega) h3] at this)
      rw [htail] at hfind hget
      rw [hget] at hfind
      exact hfind
    · have hslot : (h.tail + i) % h.capacity = h.tail + i - h.capacity := by
        rw [Nat.mod_eq_sub_mod (by omega), Nat.mod_eq_of_lt (by omega)]
      have hget := hk.getD_slot hi
      rw [hslot] at hget
      have hfind := @doFind_eq h bs[i].sequence 0 h.tail (h.tail + i - h.capacity) (by omega)
        (by rw [hget]) (fun a b h1 h2 h3 => by
          have := @Keeps.slot_lt h bs hk hasc (a + h.capacity - h.tail) (b + h.capacity - h.tail)
            (by omega) (by omega)
          rwa [hfront a (by omega), hfront b h3] at this)
      rw [hget, htail] at hfind
      rw [hfind]
  · obtain ⟨htail, hhead⟩ := hk.head_eq hfull
    have hslot : ∀ j < bs.length, (h.tail + j) % h.capacity = j := by
      intro j hj
      rw [htail, Nat.zero_add, Nat.mod_eq_of_lt (by omega)]
    rw [if_pos (by omega)]
    have hget := hk.getD_slot hi
    rw [hslot i hi] at hget
    have hfind := @doFind_eq h bs[i].sequence h.tail h.head i (by omega) (by rw [hget])
      (fun a b h1 h2 h3 => by
        have := @Keeps.slot_lt h bs hk hasc a b h2 (by omega)
        rwa [hslot a (by omega), hslot b (by omega)] at this)
    rw [hfind, hget]

end HistoryBuffer

end Aoo.Stream
