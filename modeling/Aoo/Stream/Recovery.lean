import Aoo.Stream.Arrival
import Aoo.Stream.Request

/-!
# Requests ask for what is missing

The missing frames of the blocks that `check_missing_blocks` selects go through
windows, bitsets, a queue and messages, and come out at the source as the same
frames in the same order (`requests_exact_iff`). Two things can go wrong. The
loop over the windows does not end for a block with more than 32752 frames, and
a full OSC message can be larger than the packet size: the head of the message is
taken to be smaller than it is for sources with large ids.
-/

namespace Aoo.Stream

open Lib

/-! ## One block -/

/-- The frames out of `n` that `f` does not give. -/
def missingFrames (n : Nat) (f : Nat → Option (List UInt8)) : List Int :=
  ((List.range n).filter fun j => (f j).isNone).map fun j : Nat => (j : Int)

/-- Of the `n` frames of the block those that `f` gives have arrived. -/
def ReceivedBlock.PartOf (b : ReceivedBlock) (n : Nat) (f : Nat → Option (List UInt8)) : Prop :=
  (b.Unknown ∧ ∀ i < n, f i = none) ∨ b.Holds n f

/-- The pairs of a block in OSC messages: one for each missing frame, or one for
the whole block. -/
def pairCount (b : ReceivedBlock) (n : Nat) (f : Nat → Option (List UInt8)) : Nat :=
  if b.receivedFrames > 0 then (missingFrames n f).length else 1

theorem missingFrames_none {n : Nat} {f : Nat → Option (List UInt8)} (h : ∀ i < n, f i = none) :
    missingFrames n f = (List.range n).map fun j : Nat => (j : Int) := by
  unfold missingFrames
  rw [List.filter_eq_self.mpr fun j hj => by rw [h j (List.mem_range.mp hj)]; rfl]

namespace SourceDesc

variable {b : ReceivedBlock} {n : Nat} {f : Nat → Option (List UInt8)}

/-- The requests for a block with frames. -/
theorem mem_blockRequests (h : b.numFrames = n) (hn : n ≤ 32752) (hpos : b.receivedFrames > 0)
    {r : DataRequest} :
    r ∈ blockRequests b ↔ (∃ k < numChunks n 16,
      r = ⟨b.sequence, ((16 * k : Nat) : Int), missingBits b ((16 * k : Nat) : Int)⟩) ∧
        r.bitset ≠ 0 := by
  unfold blockRequests
  rw [if_pos hpos, windows_eq h hn, List.mem_filter, List.map_map, List.mem_map]
  simp only [List.mem_range, Function.comp_apply, decide_eq_true_eq, ne_eq]
  constructor
  · rintro ⟨⟨k, hk, rfl⟩, hne⟩
    exact ⟨⟨k, hk, rfl⟩, hne⟩
  · rintro ⟨⟨k, hk, rfl⟩, hne⟩
    exact ⟨⟨k, hk, rfl⟩, hne⟩

/-- The bits of a window. -/
theorem mem_window_bits (h : b.Holds n f) (k : Nat) (a : Int) :
    a ∈ (⟨b.sequence, ((16 * k : Nat) : Int), missingBits b ((16 * k : Nat) : Int)⟩ :
      DataRequest).bits ↔ ∃ j : Nat, a = j ∧ 16 * k ≤ j ∧ j < 16 * k + 16 ∧ j < n ∧ f j = none := by
  unfold DataRequest.bits
  simp only [List.mem_map, List.mem_filter, List.mem_range, missingBits_testBit, Bool.and_eq_true,
    decide_eq_true_eq, Bool.not_eq_true']
  rw [h.numFrames_eq]
  constructor
  · rintro ⟨i, ⟨hi, ⟨-, hlt⟩, hhas⟩, rfl⟩
    have hj : 16 * k + i < n := by omega
    have hstored := h.stores.hasFrame_eq hj
    rw [Nat.cast_add] at hstored
    refine ⟨16 * k + i, by rw [Nat.cast_add], by omega, by omega, hj, ?_⟩
    exact Option.isNone_iff_eq_none.mp (Option.isSome_eq_false_iff.mp (hstored.symm.trans hhas))
  · rintro ⟨j, rfl, h1, h2, hj, hnone⟩
    have hcast : ((16 * k : Nat) : Int) + ((j - 16 * k : Nat) : Int) = j := by omega
    refine ⟨j - 16 * k, ⟨by omega, ⟨by omega, by omega⟩, ?_⟩, hcast⟩
    rw [hcast]
    refine (h.stores.hasFrame_eq hj).trans ?_
    rw [hnone]
    rfl

theorem bits_of_zero {r : DataRequest} (h : r.bitset = 0) : r.bits = [] := by
  unfold DataRequest.bits
  rw [h]
  simp

theorem bits_ascending (r : DataRequest) : r.bits.Pairwise (· < ·) := by
  unfold DataRequest.bits
  refine List.pairwise_map.mpr ((List.pairwise_lt_range.filter _).imp fun hlt => ?_)
  omega

/-- The windows are asked for in ascending order. -/
theorem blockRequests_ascending (h : b.numFrames = n) (hn : n ≤ 32752)
    (hpos : b.receivedFrames > 0) :
    (blockRequests b).Pairwise fun r r' => r.offset + 16 ≤ r'.offset := by
  unfold blockRequests
  rw [if_pos hpos, windows_eq h hn, List.map_map]
  refine List.Pairwise.filter _ (List.pairwise_map.mpr (List.pairwise_lt_range.imp fun hlt => ?_))
  show ((16 * _ : Nat) : Int) + 16 ≤ ((16 * _ : Nat) : Int)
  omega

/-- **The bits of all windows are the missing frames**, in ascending order. -/
theorem blockRequests_bits (h : b.Holds n f) (hn : n ≤ 32752) (hpos : b.receivedFrames > 0) :
    (blockRequests b).flatMap (·.bits) = missingFrames n f := by
  refine eq_of_ascending (r := (· < ·)) (fun a c hac => by omega) ?_ ?_ fun a => ?_
  · refine List.pairwise_flatMap.mpr ⟨fun r _ => bits_ascending r, ?_⟩
    refine (blockRequests_ascending h.numFrames_eq hn hpos).imp fun hle x hx y hy => ?_
    have := DataRequest.mem_bits hx
    have := DataRequest.mem_bits hy
    omega
  · exact List.pairwise_map.mpr ((List.pairwise_lt_range.filter _).imp fun hlt => by omega)
  · rw [List.mem_flatMap]
    unfold missingFrames
    simp only [List.mem_map, List.mem_filter, List.mem_range, Option.isNone_iff_eq_none]
    constructor
    · rintro ⟨r, hr, ha⟩
      obtain ⟨⟨k, hk, rfl⟩, -⟩ := (mem_blockRequests h.numFrames_eq hn hpos).mp hr
      obtain ⟨j, rfl, -, -, hj, hnone⟩ := (mem_window_bits h k a).mp ha
      exact ⟨j, ⟨hj, hnone⟩, rfl⟩
    · rintro ⟨j, ⟨hj, hnone⟩, rfl⟩
      have hmem := (mem_window_bits h (j / 16) j).mpr ⟨j, rfl, by omega, by omega, hj, hnone⟩
      refine ⟨_, (mem_blockRequests h.numFrames_eq hn hpos).mpr ⟨⟨j / 16, ?_, rfl⟩, ?_⟩, hmem⟩
      · have hcover := @le_numChunks_mul n 16 (by decide)
        omega
      · -- a window with a missing frame has a bit
        intro hzero
        rw [bits_of_zero hzero] at hmem
        cases hmem

/-- The requests for a block can be sent. -/
theorem blockRequests_wire (hseq : -2147483648 ≤ b.sequence ∧ b.sequence < 2147483648)
    (h : b.receivedFrames > 0 → b.numFrames = n ∧ n ≤ 32752) {r : DataRequest}
    (hr : r ∈ blockRequests b) :
    r.Wire ∧ r.sequence = b.sequence ∧ (b.receivedFrames > 0 → 0 ≤ r.offset) := by
  by_cases hpos : b.receivedFrames > 0
  · obtain ⟨hb, hn⟩ := h hpos
    obtain ⟨⟨k, hk, rfl⟩, -⟩ := (mem_blockRequests hb hn hpos).mp hr
    have hlt := @mul_lt_of_lt_numChunks n 16 k (by decide) hk
    refine ⟨⟨hseq, ⟨?_, ?_⟩, missingBits_lt ..⟩, rfl, fun _ => ?_⟩
    · show -32768 ≤ ((16 * k : Nat) : Int)
      omega
    · show ((16 * k : Nat) : Int) ≤ 32752
      omega
    · show 0 ≤ ((16 * k : Nat) : Int)
      omega
  · rw [blockRequests, if_neg hpos, List.mem_singleton] at hr
    subst hr
    have hoff : -32768 ≤ (-1 : Int) ∧ (-1 : Int) ≤ 32752 := by decide
    exact ⟨⟨hseq, hoff, Nat.zero_lt_succ _⟩, rfl, fun hc => absurd hc hpos⟩

/-- **The source selects what is missing.** -/
theorem select_blockRequests {numFrames : Int → Nat}
    (hseq : -2147483648 ≤ b.sequence ∧ b.sequence < 2147483648) (h : b.PartOf (numFrames b.sequence) f)
    (hbound : b.receivedFrames > 0 → b.numFrames ≤ 32752) :
    selectFrames numFrames (blockRequests b) =
      (missingFrames (numFrames b.sequence) f).map fun j => (b.sequence, j) := by
  obtain ⟨n, hn⟩ : ∃ n, numFrames b.sequence = n := ⟨_, rfl⟩
  rw [hn] at h ⊢
  by_cases hpos : b.receivedFrames > 0
  · rcases h with h | h
    · have := h.1.received
      omega
    · have hn' : n ≤ 32752 := by
        have := hbound hpos
        rw [h.numFrames_eq] at this
        omega
      have hframes : ∀ r ∈ blockRequests b,
          (r.frames (numFrames r.sequence)).map (fun j => (r.sequence, j)) =
            r.bits.map fun j => (b.sequence, j) := by
        intro r hr
        obtain ⟨hwire, hs, hoff⟩ := blockRequests_wire hseq (fun _ => ⟨h.numFrames_eq, hn'⟩) hr
        rw [hs, hn, DataRequest.frames_of_nonneg (hoff hpos), List.filter_eq_self.mpr]
        intro a ha
        obtain ⟨⟨k, -, rfl⟩, -⟩ := (mem_blockRequests h.numFrames_eq hn' hpos).mp hr
        obtain ⟨j, rfl, -, -, hj, -⟩ := (mem_window_bits h k a).mp ha
        exact decide_eq_true (by omega)
      rw [selectFrames, List.flatMap_congr hframes, ← List.map_flatMap, blockRequests_bits h hn' hpos]
  · have hnone : ∀ i < n, f i = none := by
      rcases h with h | h
      · exact h.2
      · intro i hi
        by_contra hc
        have hlt := storedCount_pos hi (Option.isSome_iff_ne_none.mpr hc)
        have := h.received
        omega
    rw [blockRequests, if_neg hpos, selectFrames, List.flatMap_singleton, missingFrames_none hnone]
    show ((⟨b.sequence, -1, 0⟩ : DataRequest).frames (numFrames b.sequence)).map _ = _
    rw [hn, DataRequest.frames, if_pos (show (-1 : Int) < 0 by decide), Int.toNat_natCast]

/-- The pairs for a block. -/
theorem length_pairs_blockRequests (hseq : -2147483648 ≤ b.sequence ∧ b.sequence < 2147483648)
    (h : b.PartOf n f) (hbound : b.receivedFrames > 0 → b.numFrames ≤ 32752) :
    ((blockRequests b).flatMap (·.pairs)).length = pairCount b n f := by
  unfold pairCount
  split
  next hpos =>
    rcases h with h | h
    · have := h.1.received
      omega
    · have hn : n ≤ 32752 := by
        have := hbound hpos
        rw [h.numFrames_eq] at this
        omega
      have hpairs : ∀ r ∈ blockRequests b, r.pairs = r.bits.map fun frame => (b.sequence, frame) := by
        intro r hr
        obtain ⟨-, hs, hoff⟩ := blockRequests_wire hseq (fun _ => ⟨h.numFrames_eq, hn⟩) hr
        have := hoff hpos
        rw [DataRequest.pairs, if_neg (by omega), hs]
      rw [List.flatMap_congr hpairs, ← List.map_flatMap, List.length_map,
        blockRequests_bits h hn hpos]
  next hpos =>
    rw [blockRequests, if_neg hpos, List.flatMap_singleton]
    rfl

/-! ## The selected blocks -/

/-- The blocks that `check_missing_blocks` selects: incomplete ones whose time has
come, without the last block, up to the limit. -/
def selected (s : SourceDesc) (resendEnabled : Bool) (limit : Int) (due : List Bool) :
    List ReceivedBlock :=
  if s.wired then []
  else if s.jitterBuffer.size ≤ 1 ∨ ¬ resendEnabled then []
  else ((((s.jitterBuffer.blocks.take (s.jitterBuffer.size - 1)).zip due).filter
    fun p => !p.1.complete && p.2).map (·.1)).take (max limit 1).toNat

theorem selected_subset (s : SourceDesc) (resendEnabled : Bool) (limit : Int) (due : List Bool)
    {b : ReceivedBlock} (hb : b ∈ s.selected resendEnabled limit due) :
    b ∈ s.jitterBuffer.blocks := by
  unfold selected at hb
  split at hb
  next => cases hb
  next =>
    split at hb
    next => cases hb
    next =>
      obtain ⟨p, hp, rfl⟩ := List.mem_map.mp (List.mem_of_mem_take hb)
      exact List.mem_of_mem_take (List.of_mem_zip (List.mem_filter.mp hp).1).1

/-- The loop over the blocks puts the requests of the selected blocks in the queue. -/
theorem requestBlocks_queue (limit : Int) {l : List (Nat × Bool)} {s : SourceDesc}
    (hnodup : (l.map (·.1)).Nodup) (resent : Nat) :
    (requestBlocks limit l resent s).dataRequests = s.dataRequests ++
      ((((l.map fun p => (s.jitterBuffer.slot p.1, p.2)).filter
        fun p => !p.1.complete && p.2).map (·.1)).take
          (max (limit - resent) 1).toNat).flatMap blockRequests := by
  induction l generalizing s resent with
  | nil => simp [requestBlocks]
  | cons p l ih =>
    obtain ⟨slot, due⟩ := p
    rw [List.map_cons, List.nodup_cons] at hnodup
    rw [requestBlocks]
    simp only [List.map_cons, List.filter_cons]
    split
    next =>
      rw [List.map_cons]
      have hsame : (l.map fun q =>
          ((s.jitterBuffer.modify slot (·.update s.elapsedTime)).slot q.1, q.2)) =
          l.map fun q => (s.jitterBuffer.slot q.1, q.2) := by
        refine List.map_congr_left fun q hq => ?_
        rw [JitterBuffer.slot_modify_ne fun hc => hnodup.1 (List.mem_map.mpr ⟨q, hq, hc⟩)]
      split
      next hlimit =>
        rw [show (max (limit - resent) 1).toNat = 1 by omega, List.take_succ_cons, List.take_zero,
          List.flatMap_singleton]
      next hlimit =>
        rw [ih hnodup.2,
          show (max (limit - resent) 1).toNat = (max (limit - (resent + 1 : Nat)) 1).toNat + 1 by
            omega, List.take_succ_cons, List.flatMap_cons, ← List.append_assoc, hsame]
    next => exact ih hnodup.2 resent

/-- **`check_missing_blocks` requests the selected blocks.** -/
theorem checkMissingBlocks_queue {s : SourceDesc} {bs fs : List ReceivedBlock}
    (h : s.jitterBuffer.Ring bs fs) (resendEnabled : Bool) (limit : Int) (due : List Bool) :
    (s.checkMissingBlocks resendEnabled limit due).dataRequests =
      s.dataRequests ++ (s.selected resendEnabled limit due).flatMap blockRequests := by
  unfold checkMissingBlocks selected
  split
  next => simp
  next =>
    split
    next => simp
    next =>
      have hfst : (((s.jitterBuffer.indices.take (s.jitterBuffer.size - 1)).zip due).map
          (·.1)).Nodup := by
        rw [List.zip_eq_zip_take_min, List.map_fst_zip (by simp)]
        exact (h.nodup_indices.sublist (List.take_sublist ..)).sublist (List.take_sublist ..)
      have hblocks : ((s.jitterBuffer.indices.take (s.jitterBuffer.size - 1)).zip due).map
          (fun p => (s.jitterBuffer.slot p.1, p.2)) =
          (s.jitterBuffer.blocks.take (s.jitterBuffer.size - 1)).zip due := by
        rw [h.blocks_eq, ← h.iterate_eq, ← List.map_take, List.zip_map_left]
        rfl
      rw [requestBlocks_queue limit hfst, hblocks, Nat.cast_zero, Int.sub_zero]

end SourceDesc

/-! ## Sizes -/

namespace Requester

variable {c : Requester}

theorem maxrequests_pos (c : Requester) : 0 < c.maxrequests := by
  have hge := c.packetSize.ge
  unfold maxrequests Sink.kBinDataHeaderSize AOO_LOW_LATENCY_PACKET_HEADER_SIZE
    kAooBinMsgLargeHeaderSize
  unfold Sink.kDataHeaderSize at *
  split <;> omega

theorem maxrequests_le (c : Requester) : c.maxrequests ≤ 4096 := by
  have hle := c.packetSize.le
  unfold AOO_MAX_PACKET_SIZE at hle
  unfold maxrequests
  split <;> omega

/-- A binary message fits the packet size. -/
theorem binMessage_fits (hbin : c.binary = true) {rs : List DataRequest}
    (h : rs.length ≤ c.maxrequests) : (c.binMessage rs).length ≤ c.packetSize.val := by
  have hge := c.packetSize.ge
  have hheader := binmsgWriteHeader_length_le AOO_MAX_PACKET_SIZE .source kAooBinMsgCmdData
    c.sourceId c.id
  unfold maxrequests Sink.kBinDataHeaderSize AOO_LOW_LATENCY_PACKET_HEADER_SIZE
    kAooBinMsgLargeHeaderSize at h
  unfold Sink.kDataHeaderSize at hge
  rw [if_pos hbin] at h
  unfold binMessage
  rw [List.length_append, List.length_append, List.length_append, int32Bytes_length,
    int32Bytes_length, flatMap_bytes_length]
  omega

/-- The size of an OSC message with `k` pairs: the address, the type tags, two ids
and the pairs. -/
def oscSize (c : Requester) (k : Nat) : Nat :=
  pad4 (15 + idLength c.sourceId) + pad4 (2 * k + 4) + (8 * k + 8)

theorem oscMessage_size (c : Requester) (ps : List (Int × Int)) :
    (c.oscMessage ps).size = c.oscSize ps.length := by
  have hargs : ((ps.flatMap fun p => [OscArg.int32 p.1, .int32 p.2]).map OscArg.size).sum =
      8 * ps.length := by
    induction ps with
    | nil => rfl
    | cons p ps ih =>
      rw [List.flatMap_cons, List.map_append, List.sum_append, ih, List.length_cons]
      show 8 + _ = _
      omega
  unfold oscMessage OscMessage.size oscSize OscAddress.length
  simp only [List.length_cons, List.map_cons, List.sum_cons, hargs, flatMap_args_length,
    OscArg.size]
  rw [show 14 + idLength c.sourceId + 1 = 15 + idLength c.sourceId by omega,
    show 2 * ps.length + 1 + 1 + 2 = 2 * ps.length + 4 by omega]
  omega

/-- A message that is not full fits the packet size. -/
theorem oscSize_fits (hosc : c.binary = false) {k : Nat} (hk : k < c.maxrequests) :
    c.oscSize k ≤ c.packetSize.val := by
  have hge := c.packetSize.ge
  have hlen := idLength_le c.source_range
  unfold maxrequests at hk
  rw [hosc, if_neg Bool.false_ne_true] at hk
  unfold Sink.kDataHeaderSize at hk hge
  unfold oscSize pad4
  omega

theorem oscSize_mono (c : Requester) {k l : Nat} (h : k ≤ l) : c.oscSize k ≤ c.oscSize l := by
  unfold oscSize pad4
  omega

end Requester

/-! ## From sink to source -/

/-- The queue of the source after the messages for a queue of the sink. -/
def Requester.deliver (c : Requester) (sink : SinkDesc) (resendBufferSize : Int)
    (queue : List DataRequest) : List DataRequest :=
  ((c.sendDataRequests queue).foldl (fun s m => s.handleDataRequest c.sourceId resendBufferSize m)
    sink).dataRequests

theorem selectFrames_pairs {queue : List DataRequest} (h : ∀ r ∈ queue, r.Wire)
    (numFrames : Int → Nat) :
    selectFrames numFrames ((queue.flatMap (·.pairs)).map pairRequest) =
      selectFrames numFrames queue := by
  induction queue with
  | nil => rfl
  | cons r queue ih =>
    rw [List.flatMap_cons, List.map_append, selectFrames_append,
      (h r (List.mem_cons_self ..)).select_pairs, ih fun r hr => h r (List.mem_cons_of_mem _ hr),
      ← selectFrames_append, List.singleton_append]

/-- **No request is lost or doubled** on the way to the source. -/
theorem selectFrames_deliver {c : Requester} {sink : SinkDesc} {resendBufferSize : Int}
    (h : c.Answered sink resendBufferSize) (hempty : sink.dataRequests = [])
    {queue : List DataRequest} (hq : ∀ r ∈ queue, r.Wire) (numFrames : Int → Nat) :
    selectFrames numFrames (c.deliver sink resendBufferSize queue) =
      selectFrames numFrames queue := by
  unfold Requester.deliver Requester.sendDataRequests
  split
  next =>
    have hread : ∀ rs ∈ batches c.maxrequests queue [],
        parseRequest (.bin (c.binMessage rs)) = some (c.sourceId, c.id, c.streamId, id rs) := by
      intro rs hrs
      refine c.parse_binMessage (fun r hr => hq r ?_) ?_
      · have hmem := List.mem_flatten.mpr ⟨rs, hrs, hr⟩
        rwa [batches_flatten, List.nil_append] at hmem
      · have := (length_of_mem_batches c.maxrequests_pos hrs).1
        have := c.maxrequests_le
        omega
    rw [h.handle hread, hempty, List.nil_append, List.flatMap_id, batches_flatten, List.nil_append]
  next =>
    have hread : ∀ ps ∈ batches c.maxrequests (queue.flatMap (·.pairs)) [],
        parseRequest (.osc (c.oscMessage ps)) =
          some (c.sourceId, c.id, c.streamId, ps.map pairRequest) :=
      fun ps _ => c.parse_oscMessage ps
    rw [h.handle hread, hempty, List.nil_append, List.flatMap_def, ← List.map_flatten,
      batches_flatten, List.nil_append, selectFrames_pairs hq]

/-- Every message fits the packet size, unless a full OSC message is sent that
does not. -/
theorem Requester.messages_fit_iff (c : Requester) (queue : List DataRequest) :
    (∀ m ∈ c.sendDataRequests queue, m.size ≤ c.packetSize.val) ↔
      (c.binary = true ∨ (queue.flatMap (·.pairs)).length < c.maxrequests ∨
        c.oscSize c.maxrequests ≤ c.packetSize.val) := by
  unfold Requester.sendDataRequests
  cases hbin : c.binary with
  | true =>
    refine ⟨fun _ => Or.inl rfl, fun _ m hm => ?_⟩
    obtain ⟨rs, hrs, rfl⟩ := List.mem_map.mp hm
    exact Requester.binMessage_fits hbin (length_of_mem_batches c.maxrequests_pos hrs).1
  | false =>
    rw [if_neg Bool.false_ne_true]
    constructor
    · intro hall
      by_cases hlt : (queue.flatMap (·.pairs)).length < c.maxrequests
      · exact Or.inr (Or.inl hlt)
      · obtain ⟨ps, hps, hlen⟩ := @exists_full_batch _ _ (queue.flatMap (·.pairs)) []
          c.maxrequests_pos (by rw [List.length_nil]; omega)
        have hsize := hall _ (List.mem_map_of_mem hps)
        rw [Datagram.size, c.oscMessage_size, hlen] at hsize
        exact Or.inr (Or.inr hsize)
    · rintro (hc | hcond) m hm
      · cases hc
      · obtain ⟨ps, hps, rfl⟩ := List.mem_map.mp hm
        obtain ⟨hmax, hall⟩ := length_of_mem_batches c.maxrequests_pos hps
        rw [List.length_nil, Nat.zero_add] at hall
        rw [Datagram.size, c.oscMessage_size]
        rcases hcond with hlt | hfull
        · exact Requester.oscSize_fits hbin (by omega)
        · exact (c.oscSize_mono hmax).trans hfull

/-- What is wanted of the requests for the selected blocks: the loops that make
them end, the source selects the missing frames (all of them, once and in order),
and every message fits the packet size of the sink. -/
structure ExactRequests (c : Requester) (blocks : List ReceivedBlock) (queue : List DataRequest)
    (numFrames : Int → Nat) (content : ReceivedBlock → Nat → Option (List UInt8))
    (delivered : List DataRequest) : Prop where
  ends : ∀ b ∈ blocks, b.receivedFrames > 0 →
    ∃ fuel, (SourceDesc.windows b fuel 0).length < fuel
  exact : selectFrames numFrames delivered = blocks.flatMap fun b =>
    (missingFrames (numFrames b.sequence) (content b)).map fun j => (b.sequence, j)
  fits : ∀ m ∈ c.sendDataRequests queue, m.size ≤ c.packetSize.val

theorem SourceDesc.windows_end_iff {b : ReceivedBlock} {n : Nat} (hb : b.numFrames = n) :
    (∃ fuel, (windows b fuel 0).length < fuel) ↔ b.numFrames ≤ 32752 := by
  constructor
  · rintro ⟨fuel, hlt⟩
    by_contra hc
    rw [windows_length (by omega) fuel 0 rfl (by decide) (by decide)] at hlt
    omega
  · intro hle
    refine ⟨4096, ?_⟩
    rw [windows_eq hb (by omega), List.length_map, List.length_range]
    unfold numChunks
    split <;> omega

/-- **Requests ask for exactly what is missing** if and only if no partly
received block that is selected has more than 32752 frames, and no full OSC
message is sent that is larger than the packet size. -/
theorem requests_exact_iff {s : SourceDesc} {bs fs : List ReceivedBlock}
    (hring : s.jitterBuffer.Ring bs fs) (hqueue : s.dataRequests = [])
    (numFrames : Int → Nat) (content : ReceivedBlock → Nat → Option (List UInt8))
    (hseq : ∀ b ∈ bs, -2147483648 ≤ b.sequence ∧ b.sequence < 2147483648)
    (hcontent : ∀ b ∈ bs, b.PartOf (numFrames b.sequence) (content b))
    {c : Requester} {sink : SinkDesc} {resendBufferSize : Int}
    (hanswer : c.Answered sink resendBufferSize) (hempty : sink.dataRequests = [])
    (resendEnabled : Bool) (limit : Int) (due : List Bool) :
    ExactRequests c (s.selected resendEnabled limit due)
        (s.checkMissingBlocks resendEnabled limit due).dataRequests numFrames content
        (c.deliver sink resendBufferSize
          (s.checkMissingBlocks resendEnabled limit due).dataRequests) ↔
      (∀ b ∈ s.selected resendEnabled limit due, b.receivedFrames > 0 → b.numFrames ≤ 32752) ∧
      (c.binary = true ∨
        ((s.selected resendEnabled limit due).map fun b =>
          pairCount b (numFrames b.sequence) (content b)).sum < c.maxrequests ∨
        c.oscSize c.maxrequests ≤ c.packetSize.val) := by
  have hsub : ∀ b ∈ s.selected resendEnabled limit due, b ∈ bs := by
    intro b hb
    have := s.selected_subset resendEnabled limit due hb
    rwa [hring.blocks_eq] at this
  rw [SourceDesc.checkMissingBlocks_queue hring, hqueue, List.nil_append]
  generalize s.selected resendEnabled limit due = blocks at hsub ⊢
  have hends : (∀ b ∈ blocks, b.receivedFrames > 0 →
      ∃ fuel, (SourceDesc.windows b fuel 0).length < fuel) ↔
      ∀ b ∈ blocks, b.receivedFrames > 0 → b.numFrames ≤ 32752 := by
    refine forall_congr' fun b => forall_congr' fun hb => forall_congr' fun hpos => ?_
    rcases hcontent b (hsub b hb) with h | h
    · have := h.1.received
      omega
    · exact SourceDesc.windows_end_iff h.numFrames_eq
  -- the rest is about blocks for which the loop ends
  have hrest : (∀ b ∈ blocks, b.receivedFrames > 0 → b.numFrames ≤ 32752) →
      (selectFrames numFrames (c.deliver sink resendBufferSize
        (blocks.flatMap SourceDesc.blockRequests)) = blocks.flatMap fun b =>
          (missingFrames (numFrames b.sequence) (content b)).map fun j => (b.sequence, j)) ∧
      ((blocks.flatMap SourceDesc.blockRequests).flatMap (·.pairs)).length =
        (blocks.map fun b => pairCount b (numFrames b.sequence) (content b)).sum := by
    intro hbound
    have hwire : ∀ r ∈ blocks.flatMap SourceDesc.blockRequests, r.Wire := by
      intro r hr
      obtain ⟨b, hb, hrb⟩ := List.mem_flatMap.mp hr
      refine (SourceDesc.blockRequests_wire (n := b.numFrames.toNat) (hseq b (hsub b hb))
        (fun hpos => ?_) hrb).1
      have hle := hbound b hb hpos
      rcases hcontent b (hsub b hb) with h | h
      · have := h.1.received
        omega
      · have := h.numFrames_eq
        omega
    refine ⟨?_, ?_⟩
    · rw [selectFrames_deliver hanswer hempty hwire, selectFrames, List.flatMap_assoc]
      exact List.flatMap_congr fun b hb => SourceDesc.select_blockRequests
        (hseq b (hsub b hb)) (hcontent b (hsub b hb)) (hbound b hb)
    · rw [List.flatMap_assoc, List.length_flatMap]
      exact congrArg List.sum (List.map_congr_left fun b hb =>
        SourceDesc.length_pairs_blockRequests (hseq b (hsub b hb)) (hcontent b (hsub b hb))
          (hbound b hb))
  constructor
  · intro h
    have hbound := hends.mp h.ends
    refine ⟨hbound, ?_⟩
    have hfits := (c.messages_fit_iff _).mp h.fits
    rwa [(hrest hbound).2] at hfits
  · rintro ⟨hbound, hfits⟩
    refine ⟨hends.mpr hbound, (hrest hbound).1, (c.messages_fit_iff _).mpr ?_⟩
    rwa [(hrest hbound).2]

/-- Block 0 lacks the second of its two frames, and of block 1 nothing is known:
the source selects three frames. -/
theorem requests_three_frames :
    let d : DataPacket := ⟨0, 0, 0, 0, 5, 0, 2, 0, [], 2, 0, 0, 0, 0, 0, 0, 0⟩
    let b₀ := (ReceivedBlock.init {} d).addFrame (0 : Nat) [1, 2, 3]
    let b₁ := ReceivedBlock.initPlaceholder {} 1
    let b₂ := ReceivedBlock.initPlaceholder {} 2
    let s : SourceDesc := { jitterBuffer := { data := [b₀, b₁, b₂], size := 3, lastPushed := 2 } }
    let c : Requester := ⟨1, 2, 7, true, Sink.PacketSize.control 0, by decide, by decide, by decide⟩
    let sink : SinkDesc := ⟨1, 7, 0, [], by decide, by decide, by decide⟩
    let queue := (s.checkMissingBlocks true 16 [true, true]).dataRequests
    selectFrames (fun _ => 2) (c.deliver sink 1000 queue) = [(0, 1), (1, 0), (1, 1)] ∧
      ExactRequests c (s.selected true 16 [true, true]) queue (fun _ => 2)
        (fun b => if b.sequence = 0 then
          Function.update (fun _ => none) 0 (some [1, 2, 3]) else fun _ => none)
        (c.deliver sink 1000 queue) := by
  intro d b₀ b₁ b₂ s c sink queue
  have hring : s.jitterBuffer.Ring [b₀, b₁, b₂] [] := by
    refine ⟨⟨Nat.le_refl _, by decide, fun i hi => ?_⟩, rfl, rfl, (Nat.mod_self 3).symm⟩
    have hi3 : i < 3 := hi
    rw [List.append_nil]
    show [b₀, b₁, b₂][(0 + i) % 3]? = _
    rw [Nat.zero_add, Nat.mod_eq_of_lt hi3]
  have hfirst : b₀.Holds 2 (Function.update (fun _ => none) 0 (some [1, 2, 3])) :=
    (ReceivedBlock.holds_init {} (by decide) rfl).addFrame (by decide) rfl [1, 2, 3]
  have hcases : ∀ b ∈ [b₀, b₁, b₂], b = b₀ ∨ b = b₁ ∨ b = b₂ := fun b hb => by simpa using hb
  have hzero : b₀.sequence = 0 := ReceivedBlock.addFrame_sequence ..
  have hanswer : c.Answered sink 1000 := ⟨rfl, rfl, by decide, by decide⟩
  refine ⟨by decide +kernel, (requests_exact_iff hring rfl _ _ (fun b hb => ?_) (fun b hb => ?_)
    hanswer rfl true 16 [true, true]).mpr ⟨by decide +kernel, Or.inl rfl⟩⟩
  · rcases hcases b hb with rfl | rfl | rfl
    · rw [hzero]
      decide
    · decide
    · decide
  · rcases hcases b hb with rfl | rfl | rfl
    · rw [if_pos hzero]
      exact Or.inr hfirst
    · exact Or.inl ⟨⟨rfl, rfl⟩, fun _ _ => rfl⟩
    · exact Or.inl ⟨⟨rfl, rfl⟩, fun _ _ => rfl⟩

/-- The first of 32753 frames has arrived: the loop over the windows does not end. -/
theorem requests_never_end :
    let d : DataPacket := ⟨0, 0, 0, 0, 32753, 0, 32753, 0, [], 2, 0, 0, 0, 0, 0, 0, 0⟩
    let b₀ := (ReceivedBlock.init {} d).addFrame (0 : Nat) [1]
    let b₁ := ReceivedBlock.initPlaceholder {} 1
    let s : SourceDesc := { jitterBuffer := { data := [b₀, b₁], size := 2, lastPushed := 1 } }
    let c : Requester := ⟨1, 2, 7, true, Sink.PacketSize.control 0, by decide, by decide, by decide⟩
    let sink : SinkDesc := ⟨1, 7, 0, [], by decide, by decide, by decide⟩
    let queue := (s.checkMissingBlocks true 16 [true]).dataRequests
    let f : Nat → Option (List UInt8) := Function.update (fun _ => none) 0 (some [1])
    b₀.Holds 32753 f ∧
      ¬ ExactRequests c (s.selected true 16 [true]) queue (fun _ => 32753) (fun _ => f)
        (c.deliver sink 1000 queue) := by
  intro d b₀ b₁ s c sink queue f
  have hholds : b₀.Holds 32753 f :=
    (ReceivedBlock.holds_init {} (by decide) rfl).addFrame (by decide) rfl [1]
  refine ⟨hholds, fun h => ?_⟩
  obtain ⟨fuel, hlt⟩ := h.ends b₀ (by decide +kernel) (by decide +kernel)
  rw [SourceDesc.windows_length (by rw [hholds.numFrames_eq]; decide) fuel 0 rfl (by decide)
    (by decide)] at hlt
  omega

end Aoo.Stream
