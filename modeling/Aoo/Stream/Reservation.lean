import Aoo.Lib.FreeList
import Aoo.Stream.Request
import Aoo.Stream.Sink

/-!
# The frames that are kept in reserve

`data_frame_allocator`, and the end of `source_desc::update`: for a low-latency stream the
sink makes the frames in advance that the blocks of the stream will need. It does so from
the size of a block and the size of a datagram, as if it cut the block itself.

The source has another constant for the head of a datagram, 104 bytes where the sink has 72,
so the two do not cut a block alike. Their frames can still fall into the same bins, which
have powers of two as their sizes. And where the last frame of a block falls into the bin of
the others, the second call of `reserve` finds what the first one made and adds nothing.

**Main result.** `reserved_iff`: which configurations get the frames they need. Where the
frames are in the meantime is the subject of `Accounted`, and `held_handleStart` says that a
stream with a new format loses its reserve at once.
-/

namespace Aoo.Stream

open Lib

/-! ## The allocator -/

/-- `clz`: the leading zeros of 32 bits -/
def clz (i : Nat) : Nat := if i ≠ 0 then 31 - Nat.log2 i else 32

/-- `data_frame_allocator`: the free list of each bin, and the frames that came out of it.
Both together are what `allocated_counts_` counts. -/
abbrev DataFrameAllocator := Nat → FreeList

namespace DataFrameAllocator

/-- `min_bin_ilog2_size`; the smallest bin has frames of 64 bytes. -/
def minBinIlog2Size : Nat := 6

def maxBinSize : Nat := AOO_MAX_PACKET_SIZE

/-- `bin_count`: 64, 128 and so on to `maxBinSize`. -/
def binCount : Nat := 7

/-- `size_to_bin`. It throws above `maxBinSize`; the frames of a packet are smaller. -/
def sizeToBin (size : Nat) : Nat :=
  let nextIlog2 := 32 - clz (size - 1)
  if nextIlog2 > minBinIlog2Size then nextIlog2 - minBinIlog2Size else 0

/-- `reserve`: the loop makes new frames and puts them into the free list. -/
def reserve (a : DataFrameAllocator) (size count : Nat) : DataFrameAllocator :=
  Function.update a (sizeToBin size) ((a (sizeToBin size)).reserve count)

/-- `allocate` -/
def allocate (a : DataFrameAllocator) (size : Nat) : DataFrameAllocator :=
  FreeList.step a (.allocate (sizeToBin size))

/-- `deallocate`, for a frame of the given size -/
def deallocate (a : DataFrameAllocator) (size : Nat) : DataFrameAllocator :=
  FreeList.step a (.deallocate (sizeToBin size))

/-- `release_memory` -/
def releaseMemory (a : DataFrameAllocator) : DataFrameAllocator := fun bin => (a bin).release

/-- Every frame goes back. -/
def deallocateAll (a : DataFrameAllocator) (frames : List (List UInt8)) : DataFrameAllocator :=
  frames.foldl (fun a frame => a.deallocate frame.length) a

end DataFrameAllocator

open DataFrameAllocator

/-! ## The receive path of a source -/

/-- The frames that `data_frame_storage::clear` gives back. -/
def DataFrameStorage.stored (s : DataFrameStorage) : List (List UInt8) :=
  if isLarge s.size then s.list.map (·.2)
  else if s.size > 0 then s.vec.filterMap id
  else []

/-- The frames that `jitter_buffer::reset` gives back. -/
def JitterBuffer.stored (b : JitterBuffer) : List (List UInt8) :=
  b.data.flatMap (·.frames.stored)

/-- `packet_queue_`, a list of nodes of which some are empty. -/
structure PacketQueue where
  packets : List NetPacket := []
  emptyNodes : Nat := 0
  deriving DecidableEq, Repr

/-- `unbounded_mpsc_queue::reserve` -/
def PacketQueue.reserve (q : PacketQueue) (n : Nat) : PacketQueue :=
  { q with emptyNodes := q.emptyNodes + (n - q.emptyNodes) }

/-- `consume_all` -/
def PacketQueue.consumeAll (q : PacketQueue) : PacketQueue :=
  ⟨[], q.emptyNodes + q.packets.length⟩

/-- A `source_desc` with the places of its frames. A packet without data has no frame. -/
structure ReceivePath where
  source : SourceDesc
  packetQueue : PacketQueue := {}
  frameAllocator : DataFrameAllocator := fun _ => {}

namespace ReceivePath

/-- `flush_packet_queue` -/
def flushPacketQueue (r : ReceivePath) : ReceivePath :=
  { r with
    packetQueue := r.packetQueue.consumeAll
    frameAllocator := r.frameAllocator.deallocateAll
      ((r.packetQueue.packets.map (·.data)).filter fun data => data.length > 0) }

def releaseMemory (r : ReceivePath) : ReceivePath :=
  { r with frameAllocator := r.frameAllocator.releaseMemory }

/-- `block_bytes` -/
def blockBytes (c : AooLowLatencyStreamConfiguration) : Nat :=
  c.channelCount.toNat * c.blockFrames.toNat *
    (if c.pcmFormat = kAooLowLatencyPcmInt24 then 3 else 4)

/-- `max_frame_bytes`. The source tests that it is positive. -/
def maxFrameBytes (c : AooLowLatencyStreamConfiguration) : Nat :=
  c.datagramBytes.toNat - Sink.kBinDataHeaderSize

/-- The frames that `update` makes in advance for `reservedBlocks` blocks. -/
def reserveBlocks (r : ReceivePath) (c : AooLowLatencyStreamConfiguration)
    (reservedBlocks : Nat) : ReceivePath :=
  if blockBytes c > 0 ∧ maxFrameBytes c > 0 then
    let fullFrames := blockBytes c / maxFrameBytes c
    let finalFrameBytes := blockBytes c % maxFrameBytes c
    let framesPerBlock := fullFrames + if finalFrameBytes > 0 then 1 else 0
    let a := r.frameAllocator
    let a := if fullFrames > 0 then a.reserve (maxFrameBytes c) (reservedBlocks * fullFrames) else a
    let a := if finalFrameBytes > 0 then a.reserve finalFrameBytes reservedBlocks else a
    { r with
      packetQueue := r.packetQueue.reserve (reservedBlocks * framesPerBlock)
      frameAllocator := a }
  else r

/-- The new size of the jitter buffer. Its frames go back, and those of the packet queue
only if the size has changed. -/
def resize (r : ReceivePath) (source : SourceDesc) : ReceivePath :=
  let oldBufferSize := r.source.jitterBuffer.capacity
  let r : ReceivePath := { r with
    source
    frameAllocator := r.frameAllocator.deallocateAll r.source.jitterBuffer.stored }
  if oldBufferSize ≠ 0 ∧ oldBufferSize ≠ source.jitterBuffer.capacity then
    r.flushPacketQueue.releaseMemory
  else r

/-- `reserved_blocks` -/
def reservedBlocks (s : SourceDesc) : Nat := s.jitterBuffer.capacity + s.latencyBlocks

/-- `source_desc::update` -/
def update (r : ReceivePath) (u : SourceDesc.UpdateArgs) : ReceivePath :=
  match r.source.decoder with
  | none => r
  | some _ =>
    let source := r.source.update u
    match source.lowLatency with
    | some c => (r.resize source).reserveBlocks c (reservedBlocks source)
    | none => r.resize source

end ReceivePath

/-! ## The bins -/

/-- The leading zeros tell between which powers of two a number lies. -/
theorem clz_le_iff {i k : Nat} (hk : k < 32) : 32 - clz i ≤ k ↔ i < 2 ^ k := by
  unfold clz
  split
  next hi =>
    have hlog := @Nat.log2_lt i k hi
    omega
  next hi =>
    have hpos := Nat.two_pow_pos k
    omega

/-- A bin is large enough for the frames in it. -/
theorem sizeToBin_le_iff {size k : Nat} (hk : k < 26) :
    sizeToBin size ≤ k ↔ size ≤ 2 ^ (k + 6) := by
  have hclz := @clz_le_iff (size - 1) (k + 6) (by omega)
  have hpos := Nat.two_pow_pos (k + 6)
  unfold sizeToBin minBinIlog2Size
  dsimp only
  split <;> omega

/-- Frames up to the largest size have a bin. -/
theorem sizeToBin_lt {size : Nat} (h : size ≤ maxBinSize) : sizeToBin size < binCount :=
  Nat.lt_succ_of_le ((sizeToBin_le_iff (by decide)).mpr h)

/-- A larger frame is in no lower bin. -/
theorem sizeToBin_mono {m n : Nat} (h : m ≤ n) : sizeToBin m ≤ sizeToBin n := by
  rcases Nat.lt_or_ge (sizeToBin n) 26 with hlt | hge
  · have hn := (sizeToBin_le_iff hlt).mp (Nat.le_refl _)
    exact (sizeToBin_le_iff hlt).mpr (Nat.le_trans h hn)
  · have hmax : sizeToBin m ≤ 26 := by
      unfold sizeToBin minBinIlog2Size
      dsimp only
      split <;> omega
    omega

/-! ## Two ways to cut a block -/

/-- The frames in a bin if a block is cut into frames of `size` bytes and a rest. -/
def framesIn (size total bin : Nat) : Nat :=
  (if sizeToBin size = bin then total / size else 0) +
    if total % size > 0 ∧ sizeToBin (total % size) = bin then 1 else 0

/-- The frames that two calls of `reserve` leave in a bin, one for the frames of `size`
bytes and one for the rest. -/
def reservedIn (size total bin : Nat) : Nat :=
  max (if sizeToBin size = bin then total / size else 0)
    (if total % size > 0 ∧ sizeToBin (total % size) = bin then 1 else 0)

/-- A rest that is long enough for `k` more bytes in each of the frames. -/
theorem div_mod_of_lt_mod {size k total : Nat} (h : k * (total / size) < total % size)
    (hsize : 0 < size) : total / (size + k) = total / size ∧
      total % (size + k) = total % size - k * (total / size) := by
  have hdiv := Nat.div_add_mod total size
  have hlt := Nat.mod_lt total hsize
  have htotal : total = total % size - k * (total / size) + (size + k) * (total / size) := by
    rw [Nat.add_mul]
    omega
  have hrest : total % size - k * (total / size) < size + k := by omega
  generalize total / size = q at *
  generalize total % size - k * q = rest at *
  subst htotal
  refine ⟨?_, ?_⟩
  · rw [Nat.add_mul_div_left _ _ (by omega), Nat.div_eq_of_lt hrest, Nat.zero_add]
  · rw [Nat.add_mul_mod_self_left, Nat.mod_eq_of_lt hrest]

/-- As many longer frames as shorter ones: the bytes that the longer ones have more come out
of the rest. -/
theorem mod_of_div_eq {size k total : Nat} (h : total / (size + k) = total / size) :
    total % size = k * (total / size) + total % (size + k) := by
  have hshort := Nat.div_add_mod total size
  have hlong := Nat.div_add_mod total (size + k)
  rw [h, Nat.add_mul] at hlong
  omega

/-- The bin of the full frames holds all of them, and the last one if it is as large. -/
theorem framesIn_size (size total : Nat) :
    framesIn size total (sizeToBin size) = total / size +
      if total % size > 0 ∧ sizeToBin (total % size) = sizeToBin size then 1 else 0 := by
  rw [framesIn, if_pos rfl]

/-- What is reserved in a bin for a block is no more than its full frames, or one. -/
theorem reservedIn_le (size total bin : Nat) :
    reservedIn size total bin ≤ max (total / size) 1 := by
  unfold reservedIn
  split <;> split <;> omega

/-- A block of several frames has a rest, if the frames can be reserved. -/
theorem mod_pos_of_framesIn_le {size k total : Nat} (hsize : 0 < size) (hk : 0 < k)
    (hlong : size < total)
    (h : framesIn size total (sizeToBin size) ≤ reservedIn (size + k) total (sizeToBin size)) :
    0 < total % size := by
  refine Nat.pos_of_ne_zero fun hzero => ?_
  have hdiv := Nat.div_add_mod total size
  have hq : 1 < total / size :=
    Nat.lt_of_mul_lt_mul_left (show size * 1 < size * (total / size) by omega)
  have hle : total / (size + k) ≤ total / size :=
    Nat.div_le_div_left (Nat.le_add_right _ _) hsize
  -- without a rest there is nothing to pay for the longer frames
  have hne : total / (size + k) ≠ total / size := by
    intro heq
    have hrest := mod_of_div_eq heq
    have hmul := Nat.mul_pos hk (show 0 < total / size by omega)
    omega
  rw [framesIn_size] at h
  have hmax := reservedIn_le (size + k) total (sizeToBin size)
  omega

/-- The rest does not lie in the bin of the large frames: the second call would find those
and add nothing. -/
theorem sizeToBin_mod_ne {size k total : Nat} (hsize : 0 < size) (hlong : size < total)
    (hmod : 0 < total % size)
    (h : framesIn size total (sizeToBin size) ≤ reservedIn (size + k) total (sizeToBin size)) :
    sizeToBin (total % size) ≠ sizeToBin size := by
  intro heq
  have hq : 0 < total / size := Nat.div_pos (Nat.le_of_lt hlong) hsize
  have hle : total / (size + k) ≤ total / size :=
    Nat.div_le_div_left (Nat.le_add_right _ _) hsize
  have hmax := reservedIn_le (size + k) total (sizeToBin size)
  rw [framesIn_size, if_pos ⟨hmod, heq⟩] at h
  omega

/-- **When the second cut provides for the first.** The block is a single frame of the first
cut; or the large frames of both fall into one bin, there are as many of them, and the rests
share another bin. -/
theorem framesIn_le_reservedIn_iff {size k total : Nat} (hsize : 0 < size) (hk : 0 < k) :
    (∀ bin, framesIn size total bin ≤ reservedIn (size + k) total bin) ↔
      total ≤ size ∨
        (sizeToBin (size + k) = sizeToBin size ∧ k * (total / size) < total % size ∧
          sizeToBin (total % size - k * (total / size)) = sizeToBin (total % size) ∧
          sizeToBin (total % size) ≠ sizeToBin size) := by
  constructor
  · intro h
    refine or_iff_not_imp_left.mpr fun hshort => ?_
    have hlong : size < total := Nat.lt_of_not_le hshort
    have hq : 0 < total / size := Nat.div_pos (Nat.le_of_lt hlong) hsize
    have hmod := mod_pos_of_framesIn_le hsize hk hlong (h _)
    have hne := sizeToBin_mod_ne hsize hlong hmod (h _)
    -- the bin of the large frames, and that of the rest, which lies below
    have hfull := h (sizeToBin size)
    have hrest := h (sizeToBin (total % size))
    have hbelow := sizeToBin_mono (Nat.le_of_lt (Nat.mod_lt total hsize))
    have hbins := sizeToBin_mono (Nat.le_add_right size k)
    unfold framesIn reservedIn at hfull hrest
    rw [if_neg hne.symm, if_pos ⟨hmod, rfl⟩, if_neg (by omega)] at hrest
    obtain ⟨hlast, hlastbin⟩ : total % (size + k) > 0 ∧
        sizeToBin (total % (size + k)) = sizeToBin (total % size) := by
      by_contra hno
      rw [if_neg hno] at hrest
      omega
    have hno : ¬ (total % size > 0 ∧ sizeToBin (total % size) = sizeToBin size) :=
      fun hbin => hne hbin.2
    have hno' : ¬ (total % (size + k) > 0 ∧ sizeToBin (total % (size + k)) = sizeToBin size) :=
      fun hbin => hne (hlastbin.symm.trans hbin.2)
    rw [if_pos rfl, if_neg hno, if_neg hno'] at hfull
    have hbin : sizeToBin (size + k) = sizeToBin size := by
      by_contra hno
      rw [if_neg hno] at hfull
      omega
    rw [if_pos hbin] at hfull
    have hle : total / (size + k) ≤ total / size :=
      Nat.div_le_div_left (Nat.le_add_right _ _) hsize
    have hrests := mod_of_div_eq (show total / (size + k) = total / size by omega)
    refine ⟨hbin, by omega, ?_, hne⟩
    rw [← hlastbin, hrests, Nat.add_sub_cancel_left]
  · rintro (hshort | ⟨hbin, hlt, hrest, hne⟩) bin
    · rcases Nat.lt_or_eq_of_le hshort with hlt | rfl
      -- both cuts leave the block as it is
      · unfold framesIn reservedIn
        rw [Nat.div_eq_of_lt hlt, Nat.div_eq_of_lt (by omega), Nat.mod_eq_of_lt hlt,
          Nat.mod_eq_of_lt (by omega : total < size + k), ite_self, ite_self]
        omega
      · unfold framesIn reservedIn
        have hlt : total < total + k := Nat.lt_add_of_pos_right hk
        rw [Nat.div_self hsize, Nat.mod_self, Nat.mod_eq_of_lt hlt, Nat.div_eq_of_lt hlt]
        simp only [hsize, gt_iff_lt, true_and, Nat.lt_irrefl, false_and, if_false]
        omega
    · obtain ⟨hq, hmod⟩ := div_mod_of_lt_mod hlt hsize
      unfold framesIn reservedIn
      rw [hq, hmod, hbin, hrest]
      have hpos : total % size > 0 := by omega
      have hpos' : total % size - k * (total / size) > 0 := by omega
      simp only [hpos, hpos', true_and]
      split
      next heq =>
        rw [if_neg (fun h => hne (h.trans heq.symm))]
        omega
      next => omega

/-! ## What the source sends -/

/-- The sizes of the frames into which `send_data` cuts a block. -/
def Source.frameSizes (s : Source) (b : Block) : List Nat :=
  (framePackets (s.blockPacket b) b.content (maxpacketsize s.packetSize s.binary)).map
    (·.data.length)

/-- A block is full frames and a rest. -/
theorem Source.frameSizes_eq (s : Source) {b : Block} (h : 0 < b.content.length) :
    s.frameSizes b =
      List.replicate (b.content.length / maxpacketsize s.packetSize s.binary)
          (maxpacketsize s.packetSize s.binary) ++
        if b.content.length % maxpacketsize s.packetSize s.binary > 0 then
          [b.content.length % maxpacketsize s.packetSize s.binary]
        else [] := by
  have hsize := maxpacketsize_pos s.packetSize s.binary
  unfold Source.frameSizes framePackets
  generalize maxpacketsize s.packetSize s.binary = size at *
  have hdiv := Nat.div_add_mod b.content.length size
  rw [List.map_append, List.map_map]
  congr 1
  · refine List.eq_replicate_iff.mpr ⟨by simp, fun n hn => ?_⟩
    obtain ⟨j, hj, rfl⟩ := List.mem_map.mp hn
    -- a large frame ends inside the block
    have hend : size * (j + 1) ≤ size * (b.content.length / size) :=
      Nat.mul_le_mul_left size (List.mem_range.mp hj)
    rw [Nat.mul_succ] at hend
    simp only [Function.comp_apply, List.length_take, List.length_drop, Nat.mul_comm j size]
    omega
  · split
    next hrem =>
      rw [if_pos (by omega)]
      simp only [List.map_cons, List.map_nil, List.length_take, List.length_drop,
        Nat.mul_comm _ size]
      congr 1
      omega
    next hrem =>
      rw [if_neg (by omega)]
      rfl

/-- How many frames of a block are in a bin. -/
theorem Source.countP_frameSizes (s : Source) {b : Block} (h : 0 < b.content.length) (bin : Nat) :
    (s.frameSizes b).countP (fun size => sizeToBin size = bin) =
      framesIn (maxpacketsize s.packetSize s.binary) b.content.length bin := by
  rw [s.frameSizes_eq h, List.countP_append, List.countP_replicate, framesIn]
  simp only [decide_eq_true_eq]
  congr 1
  split
  next hrem => simp [hrem]
  next hrem => simp [hrem]

/-- No frame is larger than the largest bin. -/
theorem Source.frameSizes_le (s : Source) {b : Block} (h : 0 < b.content.length) :
    ∀ size ∈ s.frameSizes b, size ≤ maxBinSize := by
  intro size hsize
  have hpos := maxpacketsize_pos s.packetSize s.binary
  have hle := maxpacketsize_le s.packetSize s.binary
  have hlt := Nat.mod_lt b.content.length hpos
  have hmax : maxBinSize = 4096 := rfl
  rw [s.frameSizes_eq h, List.mem_append] at hsize
  rcases hsize with hlarge | hrest
  · rw [List.eq_of_mem_replicate hlarge]
    omega
  · split at hrest
    next =>
      rw [List.mem_singleton.mp hrest]
      omega
    next => cases hrest

/-! ## What is reserved -/

/-- The frames of `n` blocks that fall into a bin. -/
def demand (n : Nat) (sizes : List Nat) (bin : Nat) : Nat :=
  n * sizes.countP fun size => sizeToBin size = bin

/-- The allocator has the frames of `n` blocks: every bin holds as many, and no new one is
made, in whatever order frames are taken and given back, while those in use are the frames
of at most `n` blocks. -/
structure Covers (a : DataFrameAllocator) (n : Nat) (sizes : List Nat) : Prop where
  holds : ∀ bin < binCount, demand n sizes bin ≤ (a bin).held
  noNewFrame : ∀ actions, FreeList.KeepsWithin (demand n sizes) a actions →
    ∀ bin, (actions.foldl FreeList.step a bin).held = (a bin).held

/-- Behind the last bin nothing is needed. -/
theorem demand_eq_zero {n bin : Nat} {sizes : List Nat} (h : ∀ size ∈ sizes, size ≤ maxBinSize)
    (hbin : binCount ≤ bin) : demand n sizes bin = 0 := by
  have hnone : sizes.countP (fun size => sizeToBin size = bin) = 0 := by
    refine List.countP_eq_zero.mpr fun size hsize hdec => ?_
    have hlt := sizeToBin_lt (h size hsize)
    rw [of_decide_eq_true hdec] at hlt
    omega
  rw [demand, hnone, Nat.mul_zero]

/-- All frames are covered if each bin is. -/
theorem covers_iff {a : DataFrameAllocator} {n : Nat} {sizes : List Nat}
    (h : ∀ size ∈ sizes, size ≤ maxBinSize) :
    Covers a n sizes ↔ ∀ bin, demand n sizes bin ≤ (a bin).held := by
  refine ⟨fun hc bin => ?_, fun hall => ⟨fun bin _ => hall bin, fun _ has => ?_⟩⟩
  · rcases Nat.lt_or_ge bin binCount with hlt | hge
    · exact hc.holds bin hlt
    · rw [demand_eq_zero h hge]
      exact Nat.zero_le _
  · exact FreeList.held_run hall has

/-- The two halves say the same where no frame is in use: that no new frame is made is what
the frames in the bins are for. -/
theorem covers_iff_noNewFrame {a : DataFrameAllocator} {n : Nat} {sizes : List Nat}
    (h : ∀ size ∈ sizes, size ≤ maxBinSize) (hidle : ∀ bin, (a bin).inUse = 0) :
    Covers a n sizes ↔ ∀ actions, FreeList.KeepsWithin (demand n sizes) a actions →
      ∀ bin, (actions.foldl FreeList.step a bin).held = (a bin).held := by
  have hwithin : FreeList.Within (demand n sizes) a := by
    intro bin
    rw [hidle]
    exact Nat.zero_le _
  rw [covers_iff h, FreeList.held_run_iff hwithin]

/-- `reserve` fills one bin up to the count. -/
theorem DataFrameAllocator.held_reserve (a : DataFrameAllocator) (size count bin : Nat) :
    (a.reserve size count bin).held =
      max (a bin).held (if sizeToBin size = bin then count else 0) := by
  unfold DataFrameAllocator.reserve
  split
  next heq => rw [← heq, Function.update_self, FreeList.held_reserve]
  next hne => rw [Function.update_of_ne (Ne.symm hne), Nat.max_zero]

namespace ReceivePath

/-- The two calls of `reserve`. -/
theorem held_reserveBlocks (r : ReceivePath) {c : AooLowLatencyStreamConfiguration} (n : Nat)
    (hblock : 0 < blockBytes c) (hframe : 0 < maxFrameBytes c) (bin : Nat) :
    ((r.reserveBlocks c n).frameAllocator bin).held =
      max (r.frameAllocator bin).held
        (n * reservedIn (maxFrameBytes c) (blockBytes c) bin) := by
  have hfirst : ((if blockBytes c / maxFrameBytes c > 0 then
      r.frameAllocator.reserve (maxFrameBytes c) (n * (blockBytes c / maxFrameBytes c))
      else r.frameAllocator) bin).held =
        max (r.frameAllocator bin).held
          (if sizeToBin (maxFrameBytes c) = bin then n * (blockBytes c / maxFrameBytes c)
            else 0) := by
    split
    next => exact held_reserve ..
    next hzero => rw [Nat.eq_zero_of_not_pos hzero, Nat.mul_zero, ite_self, Nat.max_zero]
  unfold reserveBlocks reservedIn
  rw [if_pos ⟨hblock, hframe⟩]
  dsimp only
  split
  next hrest =>
    rw [held_reserve, hfirst, Nat.max_assoc, ← Nat.mul_max_mul_left]
    simp only [mul_ite, Nat.mul_zero, Nat.mul_one, hrest, true_and]
  next hrest =>
    rw [hfirst, ← Nat.mul_max_mul_left]
    simp only [mul_ite, Nat.mul_zero, hrest, false_and, if_false, Nat.max_zero]

/-! ## After `update` -/

/-- A source and a block that the configuration speaks of: the packet size is the size of its
datagrams, the format is binary, and the block has the size of its blocks. -/
structure SentAs (c : AooLowLatencyStreamConfiguration) (s : Source) (b : Block) : Prop where
  packetSize : s.packetSize.val = c.datagramBytes.toNat
  binary : s.binary = true
  size : b.content.length = blockBytes c

/-- The frames are there that the jitter buffer and the playout need, in the sizes in which
they arrive. Frames of packets in the queue count, as the reserve is for both stores. -/
def FullyReserved (r : ReceivePath) (c : AooLowLatencyStreamConfiguration) : Prop :=
  ∀ s b, SentAs c s b → Covers r.frameAllocator (reservedBlocks r.source) (s.frameSizes b)

/-- `handle_start` has accepted a stream with this configuration, which fits its format. -/
structure Negotiated (r : ReceivePath) (c : AooLowLatencyStreamConfiguration) : Prop where
  decoder : r.source.decoder = some c.blockFrames.toNat
  lowLatency : r.source.lowLatency = some c

/-- A source before the first `update`: no frame has been made. -/
def first (c : AooLowLatencyStreamConfiguration) : ReceivePath :=
  { source := { decoder := some c.blockFrames.toNat, lowLatency := some c } }

/-- `maxpacketsize` of the source, for the datagrams of the configuration. -/
def sentFrameBytes (c : AooLowLatencyStreamConfiguration) : Nat :=
  c.datagramBytes.toNat - kBinDataHeaderSize

/-- **What the sink foresees.** A block fits into one frame. Or the large frames of source and
sink, which differ by 32 bytes, fall into the same bin; the last frame of the source has more
than these 32 bytes for each large one; and with them and without them it falls into the same
bin, which is not that of the large frames. -/
def Foreseen (c : AooLowLatencyStreamConfiguration) : Prop :=
  blockBytes c ≤ sentFrameBytes c ∨
    (sizeToBin (sentFrameBytes c + 32) = sizeToBin (sentFrameBytes c) ∧
      32 * (blockBytes c / sentFrameBytes c) < blockBytes c % sentFrameBytes c ∧
      sizeToBin (blockBytes c % sentFrameBytes c - 32 * (blockBytes c / sentFrameBytes c)) =
        sizeToBin (blockBytes c % sentFrameBytes c) ∧
      sizeToBin (blockBytes c % sentFrameBytes c) ≠ sizeToBin (sentFrameBytes c))

instance (c : AooLowLatencyStreamConfiguration) : Decidable (Foreseen c) :=
  inferInstanceAs (Decidable (_ ∨ _))

section

variable {c : AooLowLatencyStreamConfiguration}

/-- The sizes of an accepted configuration. -/
theorem sizes_of_validate (h : c.validate = true) :
    256 ≤ c.datagramBytes.toNat ∧ c.datagramBytes.toNat ≤ AOO_MAX_PACKET_SIZE ∧
      0 < blockBytes c ∧ blockBytes c < 2147483648 := by
  simp only [AooLowLatencyStreamConfiguration.validate, Bool.and_eq_true, bne_iff_ne,
    decide_eq_true_eq] at h
  obtain ⟨⟨⟨⟨⟨⟨⟨⟨⟨⟨⟨⟨⟨⟨⟨-, -⟩, -⟩, hchannels⟩, hmax⟩, -⟩, hframes⟩, -⟩, -⟩, hmin⟩, hle⟩, -⟩, -⟩,
    -⟩, -⟩, -⟩ := h
  have hchannels' : 0 < c.channelCount.toNat :=
    Nat.pos_of_ne_zero fun h => hchannels (UInt16.toNat_inj.mp h)
  have hlt : c.blockFrames.toNat < 65536 := UInt16.toNat_lt _
  have hsamples := Nat.mul_le_mul hmax (Nat.le_of_lt hlt)
  have hpos := Nat.mul_pos hchannels' (show 0 < c.blockFrames.toNat by omega)
  simp only [AOO_LOW_LATENCY_MAX_CHANNELS] at hsamples
  refine ⟨hmin, hle, ?_, ?_⟩
  · unfold blockBytes
    split <;> omega
  · unfold blockBytes
    split <;> omega

/-- The receiver counts 32 bytes less of header for a frame than the sender. -/
theorem maxFrameBytes_eq (h : c.validate = true) :
    maxFrameBytes c = sentFrameBytes c + 32 ∧ 0 < sentFrameBytes c := by
  obtain ⟨hmin, -⟩ := sizes_of_validate h
  have hsink : Sink.kBinDataHeaderSize = 72 := rfl
  have hsource : kBinDataHeaderSize = 104 := rfl
  unfold maxFrameBytes sentFrameBytes
  omega

/-- The blocks of a stream need the frames of one block each. -/
theorem demand_frameSizes (hc : c.validate = true) {s : Source} {b : Block} (h : SentAs c s b)
    (n bin : Nat) :
    demand n (s.frameSizes b) bin = n * framesIn (sentFrameBytes c) (blockBytes c) bin := by
  have hpos : 0 < b.content.length := h.size ▸ (sizes_of_validate hc).2.2.1
  have hsize : maxpacketsize s.packetSize s.binary = sentFrameBytes c := by
    rw [maxpacketsize, h.binary, h.packetSize, if_pos rfl, sentFrameBytes]
  rw [demand, s.countP_frameSizes hpos, hsize, h.size]

/-- There is such a source, and such a block. -/
theorem exists_sentAs (h : c.validate = true) : ∃ s b, SentAs c s b := by
  obtain ⟨hmin, hmax, -, hlt⟩ := sizes_of_validate h
  have hsize : ([] : List UInt8).length + (List.replicate (blockBytes c) (0 : UInt8)).length <
      2147483648 := by
    rw [List.length_replicate, List.length_nil, Nat.zero_add]
    exact hlt
  exact ⟨⟨0, -1, {}, none, 0, ⟨c.datagramBytes.toNat, Nat.le_trans (by decide) hmin, hmax⟩, true, 1,
      [], by decide⟩,
    ⟨0, 0, 0, 0, [], List.replicate (blockBytes c) 0, by decide, by decide, rfl, hsize⟩,
    rfl, rfl, List.length_replicate ..⟩

/-- Enough is reserved if every bin holds the frames of all blocks. -/
theorem fullyReserved_iff_held (hc : c.validate = true) (r : ReceivePath) :
    r.FullyReserved c ↔ ∀ bin, reservedBlocks r.source *
      framesIn (sentFrameBytes c) (blockBytes c) bin ≤ (r.frameAllocator bin).held := by
  have hcovers : ∀ s b, SentAs c s b →
      (Covers r.frameAllocator (reservedBlocks r.source) (s.frameSizes b) ↔
        ∀ bin, reservedBlocks r.source * framesIn (sentFrameBytes c) (blockBytes c) bin ≤
          (r.frameAllocator bin).held) := by
    intro s b h
    have hpos : 0 < b.content.length := h.size ▸ (sizes_of_validate hc).2.2.1
    rw [covers_iff (s.frameSizes_le hpos)]
    simp only [demand_frameSizes hc h]
  refine ⟨fun h => ?_, fun h s b hsent => (hcovers s b hsent).mpr h⟩
  obtain ⟨s, b, hsent⟩ := exists_sentAs hc
  exact (hcovers s b hsent).mp (h s b hsent)

/-- The frames after `update`: those that `resize` has left, and those that are reserved. -/
theorem held_update (hc : c.validate = true) {r : ReceivePath} (hr : r.Negotiated c)
    (u : SourceDesc.UpdateArgs) (bin : Nat) :
    ((r.update u).frameAllocator bin).held =
      max ((r.resize (r.source.update u)).frameAllocator bin).held
        (reservedBlocks (r.source.update u) *
          reservedIn (maxFrameBytes c) (blockBytes c) bin) := by
  -- a new playout target does not concern the sizes
  obtain ⟨c', hc', hblock, hframe⟩ : ∃ c', (r.source.update u).lowLatency = some c' ∧
      blockBytes c' = blockBytes c ∧ maxFrameBytes c' = maxFrameBytes c := by
    rw [SourceDesc.update, hr.decoder]
    dsimp only
    rw [hr.lowLatency, Option.map_some]
    refine ⟨_, rfl, ?_, ?_⟩ <;> split <;> rfl
  have hpos := (sizes_of_validate hc).2.2.1
  have hsize := maxFrameBytes_eq hc
  rw [update, hr.decoder]
  dsimp only
  rw [hc']
  dsimp only
  rw [held_reserveBlocks _ _ (by omega) (by omega), hblock, hframe]

/-- Memory is reserved beside the source. -/
theorem source_reserveBlocks (r : ReceivePath) (c : AooLowLatencyStreamConfiguration) (n : Nat) :
    (r.reserveBlocks c n).source = r.source := by
  unfold reserveBlocks
  split <;> rfl

/-- The new buffers are those of the updated source. -/
theorem source_resize (r : ReceivePath) (s : SourceDesc) : (r.resize s).source = s := by
  unfold resize
  dsimp only
  split <;> rfl

/-- The rest of `update` is what it is without the allocator. -/
theorem source_update (r : ReceivePath) (u : SourceDesc.UpdateArgs) :
    (r.update u).source = r.source.update u := by
  unfold update
  split
  next hnone => rw [SourceDesc.update, hnone]
  next =>
    dsimp only
    split
    next => rw [source_reserveBlocks, source_resize]
    next => rw [source_resize]

/-- There is memory for one block at least. -/
theorem reservedBlocks_pos {r : ReceivePath} (hr : r.Negotiated c) (u : SourceDesc.UpdateArgs) :
    0 < reservedBlocks (r.source.update u) := by
  have hpos := u.pos
  rw [SourceDesc.update, hr.decoder]
  unfold reservedBlocks SourceDesc.UpdateArgs.latency
  dsimp only
  omega

/-- In each bin the frames that the source's blocks need are there already, or the sink
reserves them. -/
theorem fullyReserved_update_iff (hc : c.validate = true) {r : ReceivePath} (hr : r.Negotiated c)
    (u : SourceDesc.UpdateArgs) :
    (r.update u).FullyReserved c ↔ ∀ bin,
      reservedBlocks (r.source.update u) * framesIn (sentFrameBytes c) (blockBytes c) bin ≤
        max ((r.resize (r.source.update u)).frameAllocator bin).held
          (reservedBlocks (r.source.update u) *
            reservedIn (maxFrameBytes c) (blockBytes c) bin) := by
  rw [fullyReserved_iff_held hc, source_update]
  simp only [held_update hc hr]

/-- What is needed for a block is foreseen in each bin. -/
theorem foreseen_iff (hc : c.validate = true) :
    Foreseen c ↔ ∀ bin, framesIn (sentFrameBytes c) (blockBytes c) bin ≤
      reservedIn (maxFrameBytes c) (blockBytes c) bin := by
  obtain ⟨hsize, hpos⟩ := maxFrameBytes_eq hc
  rw [hsize, framesIn_le_reservedIn_iff hpos (by decide)]
  exact Iff.rfl

/-- What is foreseen for one block is reserved for all. -/
theorem fullyReserved_of_foreseen (hc : c.validate = true) (h : Foreseen c) {r : ReceivePath}
    (hr : r.Negotiated c) (u : SourceDesc.UpdateArgs) : (r.update u).FullyReserved c := by
  refine (fullyReserved_update_iff hc hr u).mpr fun bin => ?_
  exact Nat.le_trans (Nat.mul_le_mul_left _ ((foreseen_iff hc).mp h bin)) (Nat.le_max_right _ _)

/-- Where `update` meets no frames, it has to make them all. -/
theorem fullyReserved_iff_foreseen (hc : c.validate = true) {r : ReceivePath}
    (hr : r.Negotiated c) (u : SourceDesc.UpdateArgs)
    (hempty : ∀ bin, ((r.resize (r.source.update u)).frameAllocator bin).held = 0) :
    (r.update u).FullyReserved c ↔ Foreseen c := by
  have hpos := reservedBlocks_pos hr u
  rw [fullyReserved_update_iff hc hr, foreseen_iff hc]
  refine forall_congr' fun bin => ?_
  rw [hempty, Nat.zero_max]
  exact Nat.mul_le_mul_left_iff hpos

end

/-- **When the receive path is fully reserved.** For an accepted configuration and any
settings, among them the playout target, `update` leaves the frames that the source's blocks
need, whatever the allocator held before, if and only if the sink foresees them. -/
theorem reserved_iff (c : AooLowLatencyStreamConfiguration) (u : SourceDesc.UpdateArgs)
    (hc : c.validate = true) :
    (∀ r : ReceivePath, r.Negotiated c → (r.update u).FullyReserved c) ↔ Foreseen c := by
  refine ⟨fun h => ?_, fun h r hr => fullyReserved_of_foreseen hc h hr u⟩
  -- the first update of a source meets no frames
  have hr : (first c).Negotiated c := ⟨rfl, rfl⟩
  exact (fullyReserved_iff_foreseen hc hr u fun _ => rfl).mp (h (first c) hr)

/-- A stereo stream on a wired network. -/
def stereo (blockFrames datagramBytes : UInt16) : AooLowLatencyStreamConfiguration where
  protocolVersion := AOO_LOW_LATENCY_PROTOCOL_VERSION
  profile := kAooLowLatencyProfileDeterministicWired
  pcmFormat := kAooLowLatencyPcmFloat32
  channelCount := 2
  blockFrames := blockFrames
  datagramBytes := datagramBytes
  channelMapCount := 2
  sampleRate := 48000
  targetLatencyFrames := 2048
  capabilities := 7
  channelMap := [0, 1] ++ List.replicate 62 0

/-- A sink whose blocks are not longer than those of the stream. -/
def settings : SourceDesc.UpdateArgs := ⟨0, 0, 1, 0, [], by decide⟩

/-- A block of 512 bytes in datagrams of 512 bytes: the rest of 104 bytes has room. -/
theorem reserved_stereo : (stereo 64 512).validate = true ∧ ∀ r : ReceivePath,
    r.Negotiated (stereo 64 512) → (r.update settings).FullyReserved (stereo 64 512) :=
  ⟨by decide, (reserved_iff (stereo 64 512) settings (by decide)).mpr (by decide)⟩

/-- A block of 4096 bytes in datagrams of 1400 bytes. The source sends three frames of 1296
bytes and one of 208; the sink expects 112 bytes in the last one, and reserves no frame of
256 bytes. -/
theorem last_frame_not_reserved :
    (stereo 512 1400).validate = true ∧ (first (stereo 512 1400)).Negotiated (stereo 512 1400) ∧
    (((first (stereo 512 1400)).update settings).frameAllocator 2).held = 0 ∧
    framesIn (sentFrameBytes (stereo 512 1400)) (blockBytes (stereo 512 1400)) 2 = 1 ∧
    ¬ ∀ (c : AooLowLatencyStreamConfiguration) (u : SourceDesc.UpdateArgs), c.validate = true →
      ∀ r : ReceivePath, r.Negotiated c → (r.update u).FullyReserved c := by
  have hvalid : (stereo 512 1400).validate = true := by decide
  refine ⟨hvalid, ⟨rfl, rfl⟩, ?_, by decide, fun h => ?_⟩
  · rw [held_update hvalid ⟨rfl, rfl⟩]
    decide
  · have hreserved := h (stereo 512 1400) settings hvalid (first _) ⟨rfl, rfl⟩
    rw [fullyReserved_iff_foreseen hvalid ⟨rfl, rfl⟩ settings fun _ => rfl] at hreserved
    exact absurd hreserved (by decide)

/-! ## Where the frames are -/

/-- The frames of the packets in the queue. -/
def queued (r : ReceivePath) : List (List UInt8) :=
  (r.packetQueue.packets.map (·.data)).filter fun data => data.length > 0

/-- The frames in use are those of the jitter buffer and of the packet queue. -/
def Accounted (r : ReceivePath) : Prop :=
  ∀ bin, (r.frameAllocator bin).inUse =
    (r.source.jitterBuffer.stored ++ r.queued).countP fun frame => sizeToBin frame.length = bin

/-- Frames that come back are counted off. -/
theorem inUse_deallocateAll (frames : List (List UInt8)) (bin : Nat) :
    ∀ a : DataFrameAllocator, (a.deallocateAll frames bin).inUse =
      (a bin).inUse - frames.countP fun frame => sizeToBin frame.length = bin := by
  induction frames with
  | nil =>
    intro a
    rfl
  | cons frame frames ih =>
    intro a
    rw [deallocateAll, List.foldl_cons]
    refine (ih _).trans ?_
    rw [List.countP_cons, DataFrameAllocator.deallocate, FreeList.step]
    by_cases heq : sizeToBin frame.length = bin
    · rw [heq, Function.update_self, FreeList.inUse_deallocate, if_pos (decide_eq_true rfl)]
      omega
    · rw [Function.update_of_ne (Ne.symm heq), if_neg (by simpa using heq), Nat.add_zero]

/-- A cleared block holds no frames. -/
theorem stored_clear (s : DataFrameStorage) : s.clear.stored = [] := by
  have hsmall : DataFrameStorage.isLarge 0 = false := rfl
  unfold DataFrameStorage.clear
  split <;> simp [DataFrameStorage.stored, hsmall]

/-- `resize` empties the jitter buffer. -/
theorem stored_resize (b : JitterBuffer) (n : Nat) (spare : List ReceivedBlock) :
    (b.resize n spare).stored = [] := by
  refine List.flatMap_eq_nil_iff.mpr fun block hblock => ?_
  rcases List.mem_append.mp hblock with h | h
  · obtain ⟨old, -, rfl⟩ := List.mem_map.mp (List.mem_of_mem_take h)
    exact stored_clear old.frames
  · rw [List.eq_of_mem_replicate h]
    rfl

/-- `update` leaves no frame in the buffer. -/
theorem stored_update {r : ReceivePath} {c : AooLowLatencyStreamConfiguration}
    (hr : r.Negotiated c) (u : SourceDesc.UpdateArgs) :
    (r.source.update u).jitterBuffer.stored = [] := by
  rw [SourceDesc.update, hr.decoder]
  exact stored_resize ..

/-- After the flush no frame is held or in use. -/
theorem Accounted.flush {r : ReceivePath} (h : r.Accounted)
    (hstored : r.source.jitterBuffer.stored = []) : r.flushPacketQueue.releaseMemory.Accounted ∧
      ∀ bin, (r.flushPacketQueue.releaseMemory.frameAllocator bin).held = 0 := by
  have hzero : ∀ bin, (r.flushPacketQueue.releaseMemory.frameAllocator bin).inUse = 0 := by
    intro bin
    have hbin := h bin
    rw [hstored, List.nil_append] at hbin
    refine (inUse_deallocateAll r.queued bin r.frameAllocator).trans ?_
    omega
  refine ⟨fun bin => ?_, fun bin => ?_⟩
  · show _ = (r.source.jitterBuffer.stored ++ []).countP _
    rw [hzero, hstored]
    rfl
  · show 0 + (r.flushPacketQueue.releaseMemory.frameAllocator bin).inUse = 0
    rw [hzero]

/-- Without stored frames the count is right for any buffer. -/
theorem Accounted.resize {r : ReceivePath} (h : r.Accounted) {s : SourceDesc}
    (hs : s.jitterBuffer.stored = []) : (r.resize s).Accounted := by
  -- the frames of the jitter buffer are back, those of the queue are in use
  have hback : ReceivePath.Accounted { r with
      source := s
      frameAllocator := r.frameAllocator.deallocateAll r.source.jitterBuffer.stored } := by
    intro bin
    refine (inUse_deallocateAll _ bin _).trans ?_
    rw [h bin, List.countP_append, hs]
    exact Nat.add_sub_cancel_left _ _
  unfold ReceivePath.resize
  dsimp only
  split
  next => exact (hback.flush hs).1
  next => exact hback

/-- Reserved frames are not in use. -/
theorem Accounted.reserveBlocks {r : ReceivePath} (h : r.Accounted)
    (c : AooLowLatencyStreamConfiguration) (n : Nat) : (r.reserveBlocks c n).Accounted := by
  have hreserve : ∀ (a : DataFrameAllocator) (size count bin : Nat),
      (a.reserve size count bin).inUse = (a bin).inUse := by
    intro a size count bin
    rcases eq_or_ne bin (sizeToBin size) with rfl | hne
    · rw [DataFrameAllocator.reserve, Function.update_self, FreeList.inUse_reserve]
    · rw [DataFrameAllocator.reserve, Function.update_of_ne hne]
  unfold ReceivePath.reserveBlocks
  split
  next =>
    intro bin
    refine Eq.trans ?_ (h bin)
    dsimp only
    split <;> split <;> simp only [hreserve]
  next => exact h

/-- `update` keeps account of the frames. -/
theorem Accounted.update {r : ReceivePath} (h : r.Accounted)
    {c : AooLowLatencyStreamConfiguration} (hr : r.Negotiated c) (u : SourceDesc.UpdateArgs) :
    (r.update u).Accounted := by
  have hresize := h.resize (stored_update hr u)
  rw [ReceivePath.update, hr.decoder]
  dsimp only
  split
  next => exact hresize.reserveBlocks _ _
  next => exact hresize

/-- If no packet is left in the queue, the frames that are reserved are all in the free
lists. -/
theorem free_of_fullyReserved {r : ReceivePath} (h : r.Accounted)
    {c : AooLowLatencyStreamConfiguration} (hr : r.Negotiated c) (u : SourceDesc.UpdateArgs)
    (hqueue : (r.update u).packetQueue.packets = []) (hreserved : (r.update u).FullyReserved c)
    {s : Source} {b : Block} (hsent : SentAs c s b) :
    ∀ bin < binCount, demand (reservedBlocks (r.update u).source) (s.frameSizes b) bin ≤
      ((r.update u).frameAllocator bin).free := by
  intro bin hbin
  have huse := h.update hr u bin
  rw [source_update, stored_update hr u, queued, hqueue] at huse
  have hholds := (hreserved s b hsent).holds bin hbin
  rw [FreeList.held, huse] at hholds
  exact hholds

/-! ## A stream with a new format -/

/-- The end of `handle_start`. If the format has changed, the frames are released once
more, behind `update`. -/
def restart (r : ReceivePath) (a : SourceDesc.StartArgs) : ReceivePath :=
  let r := r.update a.update
  let r := if a.format.isSome then r.flushPacketQueue.releaseMemory else r
  { r with source := { r.source with
      jitterBuffer := r.source.jitterBuffer.resetHead (SourceDesc.toInt32 (a.seqStart - 1)) } }

/-- `handle_start` -/
def handleStart (r : ReceivePath) (a : SourceDesc.StartArgs) : ReceivePath :=
  if a.streamId = r.source.streamId then r
  else
    let s := { r.source with
      streamId := a.streamId
      lowLatency := a.configuration
      lastAbsoluteSamplePosition := 0
      consecutiveMissingBlocks := 0
      decoded := [] }
    match a.format with
    | some n =>
      if a.decoderOk then restart { r with source := { s with decoder := some n } } a
      else { r with source := { s with decoder := none } }
    | none => if s.decoder.isSome then restart { r with source := s } a else { r with source := s }

/-- The memory is handled beside the restarted source. -/
theorem source_restart (r : ReceivePath) (a : SourceDesc.StartArgs) :
    (r.restart a).source = r.source.restart a := by
  unfold restart SourceDesc.restart
  rw [← source_update r a.update]
  dsimp only
  split <;> rfl

/-- The source does what it does without the allocator. -/
theorem source_handleStart (r : ReceivePath) (a : SourceDesc.StartArgs) :
    (r.handleStart a).source = r.source.handleStart a := by
  unfold handleStart SourceDesc.handleStart
  split
  next => rfl
  next =>
    cases hformat : a.format with
    | some n =>
      dsimp only
      split
      next => exact source_restart ..
      next => rfl
    | none =>
      dsimp only
      split
      next => exact source_restart ..
      next => rfl

/-- A new format releases all that was reserved. -/
theorem held_restart {r : ReceivePath} (h : r.Accounted) {c : AooLowLatencyStreamConfiguration}
    (hr : r.Negotiated c) {a : SourceDesc.StartArgs} (hformat : a.format.isSome = true)
    (bin : Nat) : ((r.restart a).frameAllocator bin).held = 0 := by
  have hstored : (r.update a.update).source.jitterBuffer.stored = [] := by
    rw [source_update]
    exact stored_update hr a.update
  have hflush := ((h.update hr a.update).flush hstored).2 bin
  unfold restart
  dsimp only
  rw [if_pos hformat]
  exact hflush

/-- **A new format undoes the reservation**: when a stream has started with a format that
the sink did not have before, no bin holds a frame. -/
theorem held_handleStart {r : ReceivePath} (h : r.Accounted) {a : SourceDesc.StartArgs}
    {c : AooLowLatencyStreamConfiguration} (hstream : a.streamId ≠ r.source.streamId)
    (hconfiguration : a.configuration = some c) (hformat : a.format = some c.blockFrames.toNat)
    (hdecoder : a.decoderOk = true) (bin : Nat) :
    ((r.handleStart a).frameAllocator bin).held = 0 := by
  unfold handleStart
  rw [if_neg hstream]
  dsimp only
  rw [hformat]
  dsimp only
  rw [if_pos hdecoder]
  refine held_restart (c := c) ?_ ⟨rfl, hconfiguration⟩ (by rw [hformat]; rfl) bin
  exact h

/-- Such a stream has no reserve. -/
theorem not_fullyReserved_handleStart {r : ReceivePath} (h : r.Accounted)
    {a : SourceDesc.StartArgs} {c : AooLowLatencyStreamConfiguration} (hc : c.validate = true)
    (hstream : a.streamId ≠ r.source.streamId) (hconfiguration : a.configuration = some c)
    (hformat : a.format = some c.blockFrames.toNat) (hdecoder : a.decoderOk = true) :
    ¬ (r.handleStart a).FullyReserved c := by
  have hpos : 0 < reservedBlocks (r.handleStart a).source := by
    rw [source_handleStart, SourceDesc.handleStart, if_neg hstream, hformat]
    dsimp only
    rw [if_pos hdecoder, hconfiguration]
    have hlatency := a.update.pos
    unfold reservedBlocks SourceDesc.restart SourceDesc.update SourceDesc.UpdateArgs.latency
    dsimp only
    omega
  rw [fullyReserved_iff_held hc]
  intro hheld
  have hblock := (sizes_of_validate hc).2.2.1
  -- a block has a large frame or a rest, and neither has a place
  have hnone : ∀ bin, framesIn (sentFrameBytes c) (blockBytes c) bin = 0 := by
    intro bin
    have hbin := hheld bin
    rw [held_handleStart h hstream hconfiguration hformat hdecoder] at hbin
    exact (Nat.mul_eq_zero.mp (Nat.le_zero.mp hbin)).resolve_left (by omega)
  have hfull := hnone (sizeToBin (sentFrameBytes c))
  have hrest := (Nat.add_eq_zero_iff.mp (hnone (sizeToBin (blockBytes c % sentFrameBytes c)))).2
  have hdiv := Nat.div_add_mod (blockBytes c) (sentFrameBytes c)
  rw [framesIn_size] at hfull
  rw [(Nat.add_eq_zero_iff.mp hfull).1, Nat.mul_zero, Nat.zero_add] at hdiv
  rw [hdiv, if_pos ⟨hblock, rfl⟩] at hrest
  exact absurd hrest Nat.one_ne_zero

end ReceivePath

end Aoo.Stream
