import Aoo.Stream.Source

/-!
# Frames of a block

`send_data` cuts a block into frames of equal size, the last one shorter, and
`resend_data` cuts the stored copy again. `frameOf` is the `j`-th frame; both
routines are described by it (`framePackets_eq`, `resend_eq`), and the frames put
together are the block (`frames_flatten`).

`Original.Ok` collects what holds of every block that a source saves.
-/

namespace Aoo.Stream

open Lib

/-! ## Cutting a block -/

/-- The `j`-th frame of a block. -/
def frameOf (d : DataPacket) (content : List UInt8) (maxsize j : Nat) : DataPacket :=
  { d with frameIndex := j, data := chunk content maxsize j }

/-- The packets in which a block is sent: its frames, or one empty frame. -/
theorem framePackets_eq (d : DataPacket) {content : List UInt8} {maxsize : Nat}
    (h : content ≠ [] → 0 < maxsize) :
    framePackets d content maxsize =
      (List.range (max 1 (numFrames content.length maxsize))).map (frameOf d content maxsize) := by
  by_cases hnil : content = []
  · subst hnil
    simp [framePackets, frameOf, numFrames, numChunks_zero, chunk]
  · have hms := h hnil
    have hpos : 0 < content.length := List.length_pos_iff.mpr hnil
    have hdiv := Nat.div_add_mod content.length maxsize
    rw [Nat.mul_comm] at hdiv
    have hlt := Nat.mod_lt content.length hms
    have hlarge : (List.range (content.length / maxsize)).map (fun j : Nat =>
        { d with frameIndex := (j : Int), data := (content.drop (j * maxsize)).take maxsize }) =
        (List.range (content.length / maxsize)).map (frameOf d content maxsize) := rfl
    rw [Nat.max_eq_right (show 1 ≤ numFrames content.length maxsize from numChunks_pos hms hpos)]
    unfold framePackets
    simp only [hlarge]
    by_cases hrem : content.length % maxsize = 0
    · have hcond : ¬ (content.length % maxsize ≠ 0 ∨ content.length = 0) := by omega
      rw [if_neg hcond, List.append_nil, numFrames, numChunks, if_neg (not_not.mpr hrem),
        Nat.add_zero]
    · have hlast : (content.drop (content.length / maxsize * maxsize)).take
          (content.length % maxsize) = chunk content maxsize (content.length / maxsize) :=
        take_chunk (by omega) (by omega)
      rw [if_pos (Or.inl hrem), hlast, numFrames, numChunks, if_pos hrem, List.range_succ,
        List.map_append]
      rfl

/-- **The frames of a block, put together, are the block.** -/
theorem frames_flatten (d : DataPacket) {content : List UInt8} {maxsize : Nat}
    (h : content ≠ [] → 0 < maxsize) :
    (framePackets d content maxsize).flatMap (·.data) = content := by
  rw [framePackets_eq d h, List.flatMap_map]
  exact flatMap_chunk_of_le (Nat.le_max_right _ _) h

/-! ## Blocks that a source saves -/

/-- The stored copy. -/
def Original.stored (o : Original) : SentBlock := SentBlock.set o.packet o.content o.maxsize

structure Original.Ok (o : Original) : Prop where
  sequence : 0 ≤ o.packet.sequence ∧ o.packet.sequence < 2147483647
  tt : o.packet.tt < 18446744073709551616
  samplerate : o.packet.samplerate < 18446744073709551616
  total : o.packet.totalSize = o.content.length
  size : o.content.length < 2147483648
  msg : 0 ≤ o.packet.msgSize ∧ o.packet.msgSize ≤ o.content.length
  flags : o.packet.flags < 64
  frames : o.packet.numFrames = numFrames o.content.length o.maxsize
  maxsize : o.maxsize ≤ 4014 ∧ (o.content ≠ [] → 0 < o.maxsize)
  framesFlag : hasBit o.packet.flags kAooBinMsgDataFrames = true ↔ 1 < o.packet.numFrames
  noMessage : hasBit o.packet.flags kAooBinMsgDataStreamMessage = false → o.packet.msgSize = 0
  noRate : hasBit o.packet.flags kAooBinMsgDataSampleRate = false →
    isZero o.packet.samplerate = true
  noTime : hasBit o.packet.flags kAooBinMsgDataTimeStamp = false → o.packet.tt = 0
  xrun : hasBit o.packet.flags kAooBinMsgDataXRun = true → o.content = []
  lowLatency : hasBit o.packet.flags kAooBinMsgDataLowLatency = true → o.packet.LowLatencyOk
  packets : o.packets = framePackets o.packet o.content o.maxsize

theorem maxpacketsize_pos (packetSize : PacketSize) (binary : Bool) :
    0 < maxpacketsize packetSize binary := by
  have := packetSize.ge
  unfold maxpacketsize kBinDataHeaderSize kDataHeaderSize kAooBinMsgLargeHeaderSize
    AOO_LOW_LATENCY_PACKET_HEADER_SIZE at *
  cases binary <;> simp only [Bool.false_eq_true, if_false, if_true] <;> omega

theorem maxpacketsize_le (packetSize : PacketSize) (binary : Bool) :
    maxpacketsize packetSize binary ≤ 4014 := by
  have := packetSize.le
  unfold maxpacketsize kBinDataHeaderSize kDataHeaderSize kAooBinMsgLargeHeaderSize
    AOO_LOW_LATENCY_PACKET_HEADER_SIZE AOO_MAX_PACKET_SIZE at *
  cases binary <;> simp only [Bool.false_eq_true, if_false, if_true] <;> omega

/-- Which flags `send_data` sets. -/
theorem Block.hasBit_flags (b : Block) (n : Nat) :
    (hasBit (b.flags n) kAooBinMsgDataSampleRate = !isZero b.samplerate) ∧
    (hasBit (b.flags n) kAooBinMsgDataFrames = decide (1 < n)) ∧
    (hasBit (b.flags n) kAooBinMsgDataStreamMessage = decide (0 < b.message.length)) ∧
    (hasBit (b.flags n) kAooBinMsgDataXRun = false) ∧
    (hasBit (b.flags n) kAooBinMsgDataTimeStamp = decide (b.tt ≠ 0)) ∧
    (hasBit (b.flags n) kAooBinMsgDataLowLatency = false) ∧ b.flags n < 32 := by
  refine ⟨?_, ?_, ?_, ?_, ?_, ?_, ?_⟩
  case refine_7 =>
    unfold Block.flags
    refine Nat.or_lt_two_pow (n := 5) (Nat.or_lt_two_pow (Nat.or_lt_two_pow ?_ ?_) ?_) ?_ <;>
      split <;> decide
  all_goals
    simp only [Block.flags, hasBit_or, hasBit_ite]
    cases isZero b.samplerate <;> by_cases h1 : n > 1 <;> by_cases h2 : b.message.length > 0 <;>
      by_cases h3 : b.tt = 0 <;>
      simp [hasBit, h1, h2, h3, kAooBinMsgDataSampleRate, kAooBinMsgDataFrames,
        kAooBinMsgDataStreamMessage, kAooBinMsgDataXRun, kAooBinMsgDataTimeStamp,
        kAooBinMsgDataLowLatency]

/-- The low-latency flag is one more bit. -/
theorem hasBit_withLowLatency (d : DataPacket) (c : LowLatencyConfiguration) (position : UInt64)
    {bit : Nat} (h : hasBit kAooBinMsgDataLowLatency bit = false) :
    hasBit (d.withLowLatency c position).flags bit = hasBit d.flags bit := by
  rw [DataPacket.withLowLatency, hasBit_or, h, Bool.or_false]

theorem withLowLatency_ok (d : DataPacket) (c : LowLatencyConfiguration) (position : UInt64) :
    (d.withLowLatency c position).LowLatencyOk :=
  AooLowLatencyStreamConfiguration.header_fields_ok c.ok

/-- The record of a block with this packet, content and frame size. -/
def originalOf (d : DataPacket) (content : List UInt8) (maxsize : Nat) : Original :=
  ⟨d, content, maxsize, framePackets d content maxsize⟩

/-- The extension keeps what is required of a block. -/
theorem originalOf_extend {d : DataPacket} {content : List UInt8} {maxsize : Nat}
    (h : (originalOf d content maxsize).Ok) (hflags : d.flags < 32) (s : Source)
    (position : UInt64) : (originalOf (s.extend d position) content maxsize).Ok := by
  unfold Source.extend
  split
  next c _ =>
    have hbit := @hasBit_withLowLatency d c position
    refine ⟨h.sequence, h.tt, h.samplerate, h.total, h.size, h.msg, ?_, h.frames, h.maxsize, ?_,
      ?_, ?_, ?_, ?_, fun _ => withLowLatency_ok _ _ _, rfl⟩
    · exact Nat.or_lt_two_pow (n := 6) (Nat.lt_of_lt_of_le hflags (by decide)) (by decide)
    · simp only [originalOf, hbit (show hasBit _ kAooBinMsgDataFrames = false by decide)]
      exact h.framesFlag
    · simp only [originalOf, hbit (show hasBit _ kAooBinMsgDataStreamMessage = false by decide)]
      exact h.noMessage
    · simp only [originalOf, hbit (show hasBit _ kAooBinMsgDataSampleRate = false by decide)]
      exact h.noRate
    · simp only [originalOf, hbit (show hasBit _ kAooBinMsgDataTimeStamp = false by decide)]
      exact h.noTime
    · simp only [originalOf, hbit (show hasBit _ kAooBinMsgDataXRun = false by decide)]
      exact h.xrun
  next => exact h

/-- The block of `send_data`. -/
theorem originalBlock_ok {s : Source} (hseq : 0 ≤ s.sequence ∧ s.sequence < 2147483647)
    (b : Block) : (s.originalBlock b).Ok := by
  have hsize : b.content.length = b.message.length + b.audio.length := List.length_append
  have hlt := b.size_lt
  obtain ⟨h1, h2, h3, h4, h5, h6, h7⟩ := b.hasBit_flags
    (numFrames b.content.length (maxpacketsize s.packetSize s.binary))
  refine originalOf_extend (d := s.plainBlock b) (s := s) ?_ h7 _
  refine ⟨hseq, b.tt_lt, b.samplerate_lt, rfl, ?_, ?_, Nat.lt_of_lt_of_le h7 (by decide), rfl,
    ⟨maxpacketsize_le _ _, fun _ => maxpacketsize_pos _ _⟩, ?_, ?_, ?_, ?_, ?_, ?_, rfl⟩
  · simp only [originalOf]
    omega
  · simp only [originalOf, Source.plainBlock]
    omega
  · simp only [originalOf, Source.plainBlock, h2, decide_eq_true_eq]
    omega
  · simp only [originalOf, Source.plainBlock, h3, decide_eq_false_iff_not]
    omega
  · simp only [originalOf, Source.plainBlock, h1]
    simp
  · simp only [originalOf, Source.plainBlock, h5]
    simp
  · simp only [originalOf, Source.plainBlock, h4]
    simp
  · simp only [originalOf, Source.plainBlock, h6]
    simp

theorem framePackets_nil {d : DataPacket} (h0 : d.frameIndex = 0) (hd : d.data = [])
    (maxsize : Nat) : framePackets d [] maxsize = [d] := by
  obtain ⟨sequence, channel, tt, samplerate, totalSize, msgSize, numFrames, frameIndex, data⟩ := d
  simp only at h0 hd
  simp [framePackets, h0, hd]

theorem xrunPacket_frame (s : Source) :
    s.xrunPacket.frameIndex = 0 ∧ s.xrunPacket.data = [] := by
  unfold Source.xrunPacket Source.extend
  split <;> exact ⟨rfl, rfl⟩

theorem originalXrun_eq (s : Source) : s.originalXrun = originalOf s.xrunPacket [] 0 := by
  rw [originalOf, framePackets_nil (xrunPacket_frame s).1 (xrunPacket_frame s).2]
  rfl

/-- The block of `send_xruns`. -/
theorem originalXrun_ok {s : Source} (hseq : 0 ≤ s.sequence ∧ s.sequence < 2147483647) :
    s.originalXrun.Ok := by
  rw [originalXrun_eq]
  refine originalOf_extend (d := s.plainXrun) ?_ (by show 8 < 32; decide) s _
  refine ⟨hseq, ?_, ?_, rfl, ?_, ⟨Int.le_refl 0, Int.le_refl 0⟩, ?_, ?_, ⟨Nat.zero_le _, nofun⟩,
    ?_, fun _ => rfl, fun _ => rfl, fun _ => rfl, fun _ => rfl,
    fun h => absurd h (show ¬ hasBit kAooBinMsgDataXRun kAooBinMsgDataLowLatency = true by decide),
    rfl⟩
  all_goals simp [originalOf, Source.plainXrun, numFrames, numChunks_zero, kAooBinMsgDataXRun,
    kAooBinMsgDataFrames, hasBit]

/-! ## First transmission -/

theorem Original.Ok.content_nil {o : Original} (h : o.Ok)
    (hn : numFrames o.content.length o.maxsize = 0) : o.content = [] := by
  by_contra hne
  have := numChunks_pos (h.maxsize.2 hne) (List.length_pos_iff.mpr hne)
  unfold numFrames at hn
  omega

/-- A block of at most one frame is sent as a whole. -/
theorem Original.Ok.chunk_zero {o : Original} (h : o.Ok)
    (hn : numFrames o.content.length o.maxsize ≤ 1) : chunk o.content o.maxsize 0 = o.content := by
  rw [chunk, Nat.zero_mul, List.drop_zero]
  refine List.take_of_length_le ?_
  by_cases hnil : o.content = []
  · rw [hnil]
    exact Nat.zero_le _
  · calc o.content.length ≤ numFrames o.content.length o.maxsize * o.maxsize :=
          le_numChunks_mul (h.maxsize.2 hnil)
      _ ≤ 1 * o.maxsize := Nat.mul_le_mul_right _ hn
      _ = o.maxsize := Nat.one_mul _

/-- Without the frames flag, the block has at most one frame. -/
theorem Original.Ok.single {o : Original} (h : o.Ok)
    (hno : hasBit o.packet.flags kAooBinMsgDataFrames = false) :
    numFrames o.content.length o.maxsize ≤ 1 ∧
      o.packet.numFrames = if o.content.length > 0 then 1 else 0 := by
  have hn : numFrames o.content.length o.maxsize ≤ 1 := by
    have hnot : ¬ 1 < o.packet.numFrames := fun hc => by
      rw [h.framesFlag.mpr hc] at hno
      cases hno
    rw [h.frames] at hnot
    omega
  refine ⟨hn, ?_⟩
  rw [h.frames]
  split
  next hpos =>
    have hne : o.content ≠ [] := List.length_pos_iff.mp hpos
    have : 0 < numFrames o.content.length o.maxsize := numChunks_pos (h.maxsize.2 hne) hpos
    omega
  next hzero =>
    rw [show o.content.length = 0 by omega, numFrames, numChunks_zero]
    rfl

/-- The packets of a block have its time tag, flags and frame count. -/
theorem Original.Ok.packet_fields {o : Original} (h : o.Ok) {p : DataPacket}
    (hp : p ∈ o.packets) : p.tt = o.packet.tt ∧ p.flags = o.packet.flags ∧
      p.numFrames = o.packet.numFrames := by
  rw [h.packets, framePackets_eq _ h.maxsize.2, List.mem_map] at hp
  obtain ⟨j, -, rfl⟩ := hp
  exact ⟨rfl, rfl, rfl⟩

/-- Every frame that is sent is a `Wire` packet. -/
theorem Original.Ok.wire {o : Original} (h : o.Ok) {p : DataPacket} (hp : p ∈ o.packets)
    (channel : Int) : ({ p with channel := channel } : DataPacket).Wire := by
  rw [h.packets, framePackets_eq _ h.maxsize.2, List.mem_map] at hp
  obtain ⟨j, hj, rfl⟩ := hp
  rw [List.mem_range] at hj
  have hseq := h.sequence
  have hsize := h.size
  have htotal := h.total
  have hmsg := h.msg
  refine ⟨⟨hseq.1, ?_⟩, h.tt, h.samplerate, ⟨?_, ?_⟩, ⟨hmsg.1, ?_⟩,
    Nat.lt_of_lt_of_le h.flags (by decide), ?_, fun hno => ?_, h.noMessage, h.noRate, h.noTime,
    h.lowLatency⟩
  · simp only [frameOf]
    omega
  · simp only [frameOf]
    omega
  · simp only [frameOf]
    omega
  · simp only [frameOf]
    omega
  · simp only [DataPacket.FrameOk, frameOf, h.frames]
    rcases Nat.eq_zero_or_pos (numFrames o.content.length o.maxsize) with h0 | hpos
    · refine Or.inr ⟨by omega, by omega, ?_⟩
      rw [h.content_nil h0]
      simp [chunk]
    · exact Or.inl ⟨by omega, by omega⟩
  · obtain ⟨hn, hnum⟩ := h.single hno
    have hj0 : j = 0 := by omega
    show o.packet.totalSize = ((chunk o.content o.maxsize j).length : Int) ∧
      o.packet.numFrames = if (chunk o.content o.maxsize j).length > 0 then 1 else 0
    rw [hj0, h.chunk_zero hn]
    exact ⟨htotal, hnum⟩

/-! ## Sending again -/

theorem Original.Ok.stored_buffer {o : Original} (h : o.Ok) : o.stored.buffer = o.content := by
  have htotal := h.total
  show (if o.packet.totalSize > 0 then o.content.take o.packet.totalSize.toNat else []) = o.content
  split
  next =>
    refine List.take_of_length_le ?_
    omega
  next =>
    have : o.content.length = 0 := by omega
    exact (List.length_eq_zero_iff.mp this).symm

theorem Original.Ok.stored_frameSize {o : Original} (h : o.Ok) :
    o.stored.frameSize = o.maxsize := by
  have := h.maxsize.1
  simp only [Original.stored, SentBlock.set]
  exact @toInt16_of_range (o.maxsize : Int) (by omega) (by omega)

/-- The stored frame count is the real one if it fits 16 bits. -/
theorem Original.Ok.stored_numFrames {o : Original} (h : o.Ok) (hn : o.packet.numFrames ≤ 32767) :
    o.stored.numFrames = numFrames o.content.length o.maxsize := by
  have hframes := h.frames
  rw [← hframes]
  simp only [Original.stored, SentBlock.set]
  exact toInt16_of_range (by omega) (by omega)

theorem mem_frames {r : DataRequest} {n i : Int} (h : i ∈ r.frames n) : 0 ≤ i ∧ i < n := by
  unfold DataRequest.frames at h
  split at h
  next =>
    obtain ⟨k, hk, rfl⟩ := List.mem_map.mp h
    rw [List.mem_range] at hk
    omega
  next hoff =>
    rw [List.mem_filter, decide_eq_true_eq] at h
    obtain ⟨k, -, rfl⟩ := List.mem_map.mp h.1
    omega

theorem mem_copyFrames {b : SentBlock} {off : Int} {is : List Int} {f : Int × List UInt8}
    (h : f ∈ b.copyFrames off is) : f.1 ∈ is := by
  induction is generalizing off with
  | nil => cases h
  | cons i is ih =>
    simp only [SentBlock.copyFrames] at h
    split at h
    next =>
      rcases List.mem_cons.mp h with rfl | h
      · exact List.mem_cons_self ..
      · exact List.mem_cons_of_mem _ (ih h)
    next => exact List.mem_cons_of_mem _ (ih h)

/-- One frame of the stored copy. -/
theorem Original.Ok.getFrame_eq {o : Original} (h : o.Ok) (hn : o.packet.numFrames ≤ 32767)
    {j : Nat} (hj : j < numFrames o.content.length o.maxsize) {count : Int}
    (hcount : (o.content.length : Int) - j * o.maxsize ≤ count) :
    o.stored.getFrame j count = chunk o.content o.maxsize j := by
  have hne : o.content ≠ [] := by
    intro hnil
    rw [hnil, numFrames, List.length_nil, numChunks_zero] at hj
    omega
  have hms := h.maxsize.2 hne
  have honset : j * o.maxsize < o.content.length := mul_lt_of_lt_numChunks hms hj
  have hcast : (j : Int) * (o.maxsize : Int) = ((j * o.maxsize : Nat) : Int) := by push_cast; rfl
  unfold SentBlock.getFrame
  simp only [h.stored_buffer, h.stored_frameSize, h.stored_numFrames hn, hcast]
  rw [hcast] at hcount
  have hcover := @le_numChunks_mul o.content.length o.maxsize hms
  by_cases hlast : (j : Int) = (numFrames o.content.length o.maxsize : Int) - 1
  · have hend : o.content.length ≤ j * o.maxsize + o.maxsize := by
      have hj1 : numChunks o.content.length o.maxsize = j + 1 := by
        unfold numFrames at hlast
        omega
      rw [hj1, Nat.add_mul, Nat.one_mul] at hcover
      exact hcover
    rw [if_pos hlast, if_pos ⟨by omega, hcount⟩, Int.toNat_natCast]
    exact take_chunk (by omega) (by omega)
  · have hfull : (j + 1) * o.maxsize ≤ o.content.length :=
      mul_le_of_lt_numChunks (show j + 1 < numFrames o.content.length o.maxsize by omega)
    rw [Nat.add_mul, Nat.one_mul] at hfull
    rw [if_neg hlast, if_pos ⟨by omega, by omega⟩, Int.toNat_natCast, Int.toNat_natCast]
    rfl

/-- Does a request ask for a frame? -/
def DataRequest.selects (r : DataRequest) (i : Int) : Bool :=
  decide (r.offset < 0) ||
    (decide (r.offset ≤ i) && decide (i < r.offset + 16) && r.bitset.testBit (i - r.offset).toNat)

/-- The bits of a request and the frames they stand for. -/
theorem frames_eq (r : DataRequest) (n : Nat) :
    r.frames n = ((List.range n).filter fun j : Nat => r.selects j).map fun j : Nat => (j : Int) := by
  have hcast : ∀ l : List Nat, l.Pairwise (· < ·) →
      (l.map fun j : Nat => (j : Int)).Pairwise (· < ·) := by
    intro l hl
    exact List.pairwise_map.mpr (hl.imp fun hlt => by omega)
  by_cases hoff : r.offset < 0
  · have hall : ((List.range n).filter fun j : Nat => r.selects j) = List.range n := by
      refine List.filter_eq_self.mpr fun j _ => ?_
      simp [DataRequest.selects, hoff]
    rw [hall, DataRequest.frames, if_pos hoff, Int.toNat_natCast]
  · rw [DataRequest.frames, if_neg hoff]
    refine eq_of_ascending (r := (· < ·)) (fun a b hab => by omega) ?_
      (hcast _ (List.pairwise_lt_range.filter _)) fun a => ?_
    · refine List.Pairwise.filter _ (List.pairwise_map.mpr ?_)
      exact (List.pairwise_lt_range.filter _).imp fun hlt => by omega
    · simp only [List.mem_filter, List.mem_map, List.mem_range, DataRequest.selects,
        Bool.or_eq_true, Bool.and_eq_true, decide_eq_true_eq]
      constructor
      · rintro ⟨⟨i, ⟨hi, hbit⟩, rfl⟩, hlt⟩
        refine ⟨(r.offset + i).toNat, ⟨by omega, Or.inr ⟨⟨by omega, by omega⟩, ?_⟩⟩, by omega⟩
        rw [show (((r.offset + (i : Int)).toNat : Int) - r.offset).toNat = i by omega]
        exact hbit
      · rintro ⟨j, ⟨hj, hsel⟩, rfl⟩
        obtain ⟨⟨h1, h2⟩, hbit⟩ := hsel.resolve_left hoff
        exact ⟨⟨(j - r.offset).toNat, ⟨by omega, hbit⟩, by omega⟩, by omega⟩

/-- Frames in ascending order are copied one behind the other, each as a whole. -/
theorem Original.Ok.copyFrames_eq {o : Original} (h : o.Ok) (hn : o.packet.numFrames ≤ 32767)
    {is : List Nat} (hasc : is.Pairwise (· < ·))
    (hlt : ∀ j ∈ is, j < numFrames o.content.length o.maxsize) {off : Int}
    (hoff : ∀ j ∈ is, off ≤ ((j * o.maxsize : Nat) : Int)) :
    o.stored.copyFrames off (is.map fun j : Nat => (j : Int)) =
      is.map fun j : Nat => ((j : Int), chunk o.content o.maxsize j) := by
  induction is generalizing off with
  | nil => rfl
  | cons j is ih =>
    have hj := hlt j (List.mem_cons_self ..)
    have hne : o.content ≠ [] := by
      intro hnil
      rw [hnil, numFrames, List.length_nil, numChunks_zero] at hj
      omega
    have honset : j * o.maxsize < o.content.length :=
      mul_lt_of_lt_numChunks (h.maxsize.2 hne) hj
    have hms := h.maxsize.2 hne
    have hbound := hoff j (List.mem_cons_self ..)
    have hframe : o.stored.getFrame j (o.stored.buffer.length - off) =
        chunk o.content o.maxsize j := by
      refine h.getFrame_eq hn hj ?_
      rw [h.stored_buffer]
      push_cast at hbound ⊢
      omega
    have hlen : 0 < (chunk o.content o.maxsize j).length ∧
        (chunk o.content o.maxsize j).length ≤ o.maxsize := by
      rw [chunk, List.length_take, List.length_drop]
      omega
    obtain ⟨hhead, htail⟩ := List.pairwise_cons.mp hasc
    simp only [List.map_cons, SentBlock.copyFrames, hframe, if_pos hlen.1]
    refine congrArg _ (ih htail (fun k hk => hlt k (List.mem_cons_of_mem _ hk)) fun k hk => ?_)
    have hstep : (j + 1) * o.maxsize ≤ k * o.maxsize := Nat.mul_le_mul_right _ (hhead k hk)
    rw [Nat.add_mul, Nat.one_mul] at hstep
    omega

/-- **What is sent again**: the requested frames of the block, on the channel of
the sink and without the time tag. -/
theorem Original.Ok.resend_eq {o : Original} (h : o.Ok) (hn : o.packet.numFrames ≤ 32767)
    (hpos : 0 < o.packet.numFrames) (channel : Int) (r : DataRequest) :
    o.stored.resend channel r =
      some ((o.packets.filter fun p => r.selects p.frameIndex).map fun p =>
        { p with channel := channel, tt := 0 }) := by
  have hframes := h.frames
  have hnum := h.stored_numFrames hn
  have hcopy := h.copyFrames_eq hn
    ((@List.pairwise_lt_range (numFrames o.content.length o.maxsize)).filter
      fun j : Nat => r.selects j)
    (fun j hj => List.mem_range.mp (List.mem_filter.mp hj).1) (fun j _ => Int.natCast_nonneg _)
  rw [SentBlock.resend, if_neg (by omega), if_pos (by omega), hnum, frames_eq, hcopy, h.packets,
    framePackets_eq _ h.maxsize.2, Nat.max_eq_right (by omega), List.filter_map]
  simp only [List.map_map]
  refine congrArg some (List.map_congr_left fun j hj => ?_)
  have hbuf := h.stored_buffer
  have htotal := h.total
  simp only [Function.comp, frameOf, SentBlock.packet, hbuf, hnum, ← hframes, ← htotal]
  rfl

/-- An empty block is sent again whatever is requested. -/
theorem Original.Ok.resend_empty {o : Original} (h : o.Ok) (hn : o.packet.numFrames = 0)
    (channel : Int) (r : DataRequest) :
    o.stored.resend channel r =
      some (o.packets.map fun p => { p with channel := channel, tt := 0 }) := by
  have hframes := h.frames
  have hnum := h.stored_numFrames (by omega)
  have hnil := h.content_nil (by omega)
  have hbuf := h.stored_buffer
  have htotal := h.total
  rw [SentBlock.resend, if_neg (by omega), if_neg (by omega), h.packets,
    framePackets_eq _ h.maxsize.2, Nat.max_eq_left (by omega)]
  have hdata : chunk o.content o.maxsize 0 = [] := by
    rw [hnil, chunk, List.drop_nil, List.take_nil]
  simp only [List.range_one, List.map_cons, List.map_nil, frameOf, SentBlock.packet, hbuf, hnum,
    ← hframes, ← htotal, hdata]
  rfl

theorem DataPacket.Wire.untimed {d : DataPacket} (h : d.Wire) :
    ({ d with tt := 0 } : DataPacket).Wire :=
  ⟨h.sequence, by show 0 < _; decide, h.samplerate, h.total, h.msg, h.flags, h.frame,
    h.noFrames, h.noMessage, h.noRate, fun _ => rfl, h.lowLatency⟩

/-- Every packet that is sent again is a `Wire` packet, even if the frame count
did not fit. -/
theorem Original.Ok.resend_wire {o : Original} (h : o.Ok) {channel : Int} {r : DataRequest}
    {ps : List DataPacket} (hr : o.stored.resend channel r = some ps) {p : DataPacket}
    (hp : p ∈ ps) : p.Wire ∧ p.channel = channel := by
  have hframes := h.frames
  by_cases hn : o.packet.numFrames ≤ 32767
  · by_cases hpos : 0 < o.packet.numFrames
    · rw [h.resend_eq hn hpos] at hr
      cases hr
      obtain ⟨q, hq, rfl⟩ := List.mem_map.mp hp
      exact ⟨(h.wire (List.mem_filter.mp hq).1 channel).untimed, rfl⟩
    · rw [h.resend_empty (by omega)] at hr
      cases hr
      obtain ⟨q, hq, rfl⟩ := List.mem_map.mp hp
      exact ⟨(h.wire hq channel).untimed, rfl⟩
  · -- the stored frame count is another number, but the frames section is there
    have hflag : hasBit o.packet.flags kAooBinMsgDataFrames = true :=
      h.framesFlag.mpr (by omega)
    have hseq := h.sequence
    have hmsg := h.msg
    have hsize := h.size
    have hbuf := h.stored_buffer
    have hwire : ∀ (i : Int) (data : List UInt8),
        ((0 ≤ i ∧ i < o.stored.numFrames) ∨ (o.stored.numFrames = 0 ∧ i = 0 ∧ data = [])) →
        ({ o.stored.packet channel with frameIndex := i, data := data } : DataPacket).Wire := by
      intro i data hok
      refine ⟨⟨hseq.1, Int.lt_trans hseq.2 (by decide)⟩, by show 0 < _; decide, h.samplerate,
        ⟨Int.natCast_nonneg _, ?_⟩, ⟨hmsg.1, Int.lt_of_le_of_lt hmsg.2 (by omega)⟩,
        Nat.lt_of_lt_of_le h.flags (by decide), hok, fun hno => ?_, h.noMessage, h.noRate,
        fun _ => rfl, h.lowLatency⟩
      · simp only [SentBlock.packet, hbuf]
        omega
      · exact absurd (hflag.symm.trans hno) (by decide)
    unfold SentBlock.resend at hr
    split at hr
    next => cases hr
    next hneg =>
      cases hr
      obtain ⟨f, hf, rfl⟩ := List.mem_map.mp hp
      refine ⟨hwire f.1 f.2 ?_, rfl⟩
      split at hf
      next => exact Or.inl (mem_frames (mem_copyFrames hf))
      next hzero =>
        rw [List.mem_singleton.mp hf]
        exact Or.inr ⟨by omega, rfl, rfl⟩

end Aoo.Stream
