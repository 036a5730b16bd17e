import Aoo.Stream.Emission

/-!
# The size of data messages

`send_data` cuts a block so that a frame and the head in front of it should fit the packet size. The
constant for the binary head, `kBinDataHeaderSize`, is large enough (`binary_within`). That for OSC
messages, `kDataHeaderSize`, counts 12 bytes for the type tags where there are 16, and 48 for
arguments that take 52, so that a message may be too long; `block_within_iff` says when it is not.
A stored block is sent again in the frames it was cut into first, whatever the settings are by then
(`resend_within_iff`).
-/

namespace Aoo

/-- There is a datagram, and it respects the packet size. -/
def Within (packetSize : Nat) (datagram : Option Datagram) : Prop :=
  ∃ m, datagram = some m ∧ m.size ≤ packetSize

instance (packetSize : Nat) (datagram : Option Datagram) : Decidable (Within packetSize datagram) :=
  match datagram with
  | none => .isFalse fun ⟨_, h, _⟩ => nomatch h
  | some m => decidable_of_iff (m.size ≤ packetSize)
      ⟨fun h => ⟨m, rfl, h⟩, fun ⟨_, hm, h⟩ => Option.some.inj hm ▸ h⟩

/-- A datagram is within the packet size if its bytes are. -/
theorem within_some {packetSize : Nat} {m : Datagram} :
    Within packetSize (some m) ↔ m.size ≤ packetSize :=
  ⟨fun ⟨_, hm, h⟩ => Option.some.inj hm ▸ h, fun h => ⟨m, rfl, h⟩⟩

theorem not_within_none {packetSize : Nat} : ¬ Within packetSize none := fun ⟨_, h, _⟩ => nomatch h

/-- An OSC message that is built in a local buffer. -/
theorem within_osc {packetSize : Nat} (h : packetSize ≤ AOO_MAX_PACKET_SIZE) (m : OscMessage) :
    Within packetSize (if m.size ≤ AOO_MAX_PACKET_SIZE then some (.osc m) else none) ↔
      m.size ≤ packetSize := by
  by_cases hfits : m.size ≤ AOO_MAX_PACKET_SIZE
  · rw [if_pos hfits, within_some]
    exact Iff.rfl
  · rw [if_neg hfits]
    exact iff_of_false not_within_none fun hle => hfits (Nat.le_trans hle h)

namespace Stream

open Lib

/-- The bytes of the optional fields, which are the same in both forms. -/
def optionalSize (flags : Nat) : Nat :=
  (if hasBit flags kAooBinMsgDataFrames then 8 else 0) +
  (if hasBit flags kAooBinMsgDataStreamMessage then 4 else 0) +
  (if hasBit flags kAooBinMsgDataSampleRate then 8 else 0) +
  (if hasBit flags kAooBinMsgDataTimeStamp then 8 else 0)

/-- The size of a data message to a sink with these flags and a frame of `n` bytes. -/
def messageSize (binary : Bool) (sink id : Int) (flags n : Nat) : Nat :=
  if binary then
    headerSize sink id + 12 + optionalSize flags +
      (if hasBit flags kAooBinMsgDataLowLatency then 52 else 0) + n
  else pad4 (16 + idLength sink) + 40 + optionalSize flags + pad4 n

/-- The optional fields take what the flags say. -/
theorem DataPacket.sections_length (d : DataPacket) :
    d.sections.length = optionalSize d.flags := by
  unfold DataPacket.sections optionalSize
  simp only [List.length_append]
  cases hasBit d.flags kAooBinMsgDataFrames <;> cases hasBit d.flags kAooBinMsgDataStreamMessage <;>
    cases hasBit d.flags kAooBinMsgDataSampleRate <;>
    cases hasBit d.flags kAooBinMsgDataTimeStamp <;> simp

theorem pad4_mono {m n : Nat} (h : m ≤ n) : pad4 m ≤ pad4 n := by
  unfold pad4
  omega

/-- More data, larger message. -/
theorem messageSize_mono {binary : Bool} {sink id : Int} {flags m n : Nat} (h : m ≤ n) :
    messageSize binary sink id flags m ≤ messageSize binary sink id flags n := by
  have hpad := pad4_mono h
  unfold messageSize
  split
  · omega
  · omega

/-- The size of an argument that may be missing. -/
theorem size_optional (present : Bool) (x : OscArg) :
    (if present then x else .nil : OscArg).size = if present then x.size else 0 := by
  cases present <;> rfl

/-- The size of an OSC data message. -/
theorem DataPacket.size_args (d : DataPacket) (sink id streamId : Int)
    (hxrun : hasBit d.flags kAooBinMsgDataXRun = false) :
    (⟨.sinkData sink, d.args id streamId⟩ : OscMessage).size =
      messageSize false sink id d.flags d.data.length := by
  unfold messageSize optionalSize OscMessage.size DataPacket.args
  rw [hxrun]
  cases hasBit d.flags kAooBinMsgDataFrames <;>
    simp only [Bool.false_eq_true, if_false, if_true, List.cons_append, List.nil_append,
      List.map_cons, List.map_nil, List.sum_cons, List.sum_nil, List.length_cons, List.length_nil,
      size_optional] <;>
    simp only [OscArg.size, OscAddress.length] <;> unfold pad4 <;> omega

/-- An empty block has no data argument. -/
theorem DataPacket.size_args_xrun (d : DataPacket) (sink id streamId : Int)
    (hxrun : hasBit d.flags kAooBinMsgDataXRun = true) :
    (⟨.sinkData sink, d.args id streamId⟩ : OscMessage).size + 4 =
      messageSize false sink id d.flags 0 := by
  unfold messageSize optionalSize OscMessage.size DataPacket.args
  rw [hxrun]
  cases hasBit d.flags kAooBinMsgDataFrames <;>
    simp only [Bool.false_eq_true, if_false, if_true, List.cons_append, List.nil_append,
      List.map_cons, List.map_nil, List.sum_cons, List.sum_nil, List.length_cons, List.length_nil,
      size_optional] <;>
    simp only [OscArg.size, OscAddress.length] <;> unfold pad4 <;> omega

/-- A datagram in OSC form is within the packet size if its message is. -/
theorem within_sendPacketOsc {packetSize : Nat} (hmax : packetSize ≤ AOO_MAX_PACKET_SIZE)
    (c : CachedSink) (id : Int) {d : DataPacket}
    (hxrun : hasBit d.flags kAooBinMsgDataXRun = false) :
    Within packetSize (sendPacketOsc c id d) ↔
      messageSize false c.id id d.flags d.data.length ≤ packetSize := by
  rw [← d.size_args c.id id c.streamId hxrun]
  exact within_osc hmax ⟨.sinkData c.id, d.args id c.streamId⟩

/-- So is a binary one. -/
theorem within_sendPacketBin {packetSize : Nat} (hmax : packetSize ≤ AOO_MAX_PACKET_SIZE)
    (c : CachedSink) (id : Int) {d : DataPacket} (hwire : d.Wire) (hn : d.numFrames < 65536) :
    Within packetSize (sendPacketBin c id d) ↔
      messageSize true c.id id d.flags d.data.length ≤ packetSize := by
  have hsize : headerSize c.id id + d.binSize = messageSize true c.id id d.flags d.data.length := by
    unfold DataPacket.binSize messageSize
    rw [d.sections_length, if_pos rfl]
    omega
  obtain ⟨hfits, hnot⟩ := sendPacketBin_eq hwire hn c id
  rw [← hsize]
  by_cases h : Fits c id d
  · rw [hfits h, within_some]
    show (_ : List UInt8).length ≤ packetSize ↔ _
    rw [List.length_append, d.head_tail_length, binmsgWriteHeader_length (by decide)]
  · rw [hnot h]
    refine iff_of_false not_within_none fun hle => h ?_
    exact Nat.le_trans hle hmax

/-! ## Sending a block -/

/-- A failure is not within the packet size, so the first one decides. -/
theorem within_upToFailure {packetSize : Nat} {es : List Emission} :
    (∀ e ∈ upToFailure es, Within packetSize e.datagram) ↔
      ∀ e ∈ es, Within packetSize e.datagram := by
  induction es with
  | nil => exact Iff.rfl
  | cons e es ih =>
    rw [upToFailure, List.forall_mem_cons]
    split
    next => rw [List.forall_mem_cons, ih]
    next hnone =>
      -- The attempt that fails is the last one, and no datagram is too many.
      have hfail : ¬ Within packetSize e.datagram := by
        rintro ⟨m, hm, _⟩
        exact hnone (by rw [hm]; rfl)
      refine iff_of_false (fun h => hfail (h e List.mem_cons_self)) fun h => hfail h.1

/-- The messages to several sinks are as many as fit. -/
theorem within_sendOscToAll {packetSize : Nat} (id : Int) (d : DataPacket)
    (sinks : List CachedSink) :
    (∀ i < sinks.length, Within packetSize (sendOscToAll id d sinks)[i]?) ↔
      ∀ c ∈ sinks, Within packetSize (sendPacketOsc c id { d with channel := c.channel }) := by
  induction sinks with
  | nil =>
    refine iff_of_true (fun _ h => ?_) fun _ h => absurd h List.not_mem_nil
    exact absurd h (Nat.not_lt_zero _)
  | cons c sinks ih =>
    rw [List.forall_mem_cons, ← ih, sendOscToAll]
    cases hsend : sendPacketOsc c id { d with channel := c.channel } with
    | none =>
      refine iff_of_false (fun h => ?_) fun h => not_within_none h.1
      exact not_within_none (h 0 (Nat.zero_lt_succ _))
    | some m =>
      simp only []
      constructor
      · intro h
        refine ⟨h 0 (Nat.zero_lt_succ _), fun i hi => ?_⟩
        exact h (i + 1) (Nat.succ_lt_succ hi)
      · intro ⟨hfirst, hrest⟩ i hi
        cases i with
        | zero => exact hfirst
        | succ i => exact hrest i (Nat.lt_of_succ_lt_succ hi)

/-- The datagrams for all sinks, in OSC form. -/
theorem within_emit_osc {packetSize : Nat} (hmax : packetSize ≤ AOO_MAX_PACKET_SIZE)
    (sinks : List CachedSink) (id : Int) {d : DataPacket}
    (hxrun : hasBit d.flags kAooBinMsgDataXRun = false) :
    (∀ e ∈ emit sinks id false d, Within packetSize e.datagram) ↔
      ∀ c ∈ sinks, messageSize false c.id id d.flags d.data.length ≤ packetSize := by
  have hall : (∀ e ∈ emit sinks id false d, Within packetSize e.datagram) ↔
      ∀ i < sinks.length, Within packetSize (sendOscToAll id d sinks)[i]? := by
    unfold emit
    constructor
    · intro h i hi
      exact h _ (List.mem_mapIdx.mpr ⟨i, hi, rfl⟩)
    · intro h e he
      obtain ⟨i, hi, rfl⟩ := List.mem_mapIdx.mp he
      exact h i hi
  rw [hall, within_sendOscToAll]
  refine forall_congr' fun c => forall_congr' fun _ => ?_
  exact within_sendPacketOsc hmax c id (d := { d with channel := c.channel }) hxrun

/-- What is written is no longer than the binary size. -/
theorem length_writeBinData_le (size : Nat) (streamId : Int) (d : DataPacket) :
    (writeBinData size streamId d).length ≤ d.binSize := by
  have hhead := d.head_length streamId
  unfold writeBinData DataPacket.binSize
  split
  next hll =>
    split
    next header hheader =>
      have hlength : header.length = 52 := by
        unfold AooLowLatencyPacketHeader.encode at hheader
        split at hheader
        · cases hheader
        · cases hheader
          exact AooLowLatencyPacketHeader.bytes_length _
      rw [List.length_append, List.length_append, hhead, hlength]
      omega
    next => exact Nat.zero_le _
  next =>
    rw [List.length_append, hhead]
    omega

/-- Each sink gets a datagram. -/
theorem length_sendPatched (id : Int) (d : DataPacket) (argsize : Nat) (args : List UInt8)
    (sinks : List CachedSink) : (sendPatched id d argsize args sinks).length = sinks.length := by
  induction sinks generalizing args with
  | nil => rfl
  | cons c sinks ih => rw [sendPatched, List.length_cons, ih, List.length_cons]

/-- A patched datagram has a header of twelve bytes at most. -/
theorem size_sendPatched_le {id : Int} {d : DataPacket} {argsize : Nat} {args : List UInt8}
    {sinks : List CachedSink} {m : Datagram} (h : m ∈ sendPatched id d argsize args sinks) :
    m.size ≤ 12 + argsize := by
  induction sinks generalizing args with
  | nil => exact absurd h List.not_mem_nil
  | cons c sinks ih =>
    rw [sendPatched] at h
    rcases List.mem_cons.mp h with rfl | h
    · show (_ : List UInt8).length ≤ _
      rw [List.length_append]
      refine Nat.add_le_add (binmsgWriteHeader_length_le ..) ?_
      rw [List.length_take]
      exact Nat.min_le_left _ _
    · exact ih h

/-- **A binary message respects the packet size.** -/
theorem within_emit_binary {packetSize : Nat} (hmax : packetSize ≤ AOO_MAX_PACKET_SIZE)
    (sinks : List CachedSink) (id : Int) {d : DataPacket}
    (hroom : kBinDataHeaderSize + d.data.length ≤ packetSize) :
    ∀ e ∈ emit sinks id true d, Within packetSize e.datagram := by
  have hlength := length_writeBinData_le (AOO_MAX_PACKET_SIZE - kAooBinMsgLargeHeaderSize)
    kAooIdInvalid d
  have hsize := d.binSize_le
  have hheader : kBinDataHeaderSize = 104 := rfl
  have hlarge : kAooBinMsgLargeHeaderSize = 12 := rfl
  intro e he
  obtain ⟨i, hi, rfl⟩ := List.mem_mapIdx.mp he
  show Within packetSize (sendPacket sinks id d true)[i]?
  rw [sendPacket, if_pos rfl]
  simp only []
  rw [if_pos (by omega)]
  have hi' : i < (sendPatched id d _ _ sinks).length :=
    (length_sendPatched id d (writeBinData (AOO_MAX_PACKET_SIZE - kAooBinMsgLargeHeaderSize)
      kAooIdInvalid d).length (writeBinData (AOO_MAX_PACKET_SIZE - kAooBinMsgLargeHeaderSize)
      kAooIdInvalid d) sinks).symm ▸ hi
  rw [List.getElem?_eq_getElem hi', within_some]
  have hle := size_sendPatched_le (List.getElem_mem hi')
  omega

/-- The frames of a block are as large as the first one. -/
theorem forall_framePackets_iff (d : DataPacket) {content : List UInt8} {maxsize : Nat}
    (hpos : 0 < maxsize) {binary : Bool} {sink id : Int} {packetSize : Nat} :
    (∀ p ∈ framePackets d content maxsize,
      messageSize binary sink id p.flags p.data.length ≤ packetSize) ↔
      messageSize binary sink id d.flags (min maxsize content.length) ≤ packetSize := by
  rw [framePackets_eq d fun _ => hpos]
  constructor
  · intro h
    have hfirst := h (frameOf d content maxsize 0)
      (List.mem_map.mpr ⟨0, List.mem_range.mpr (by omega), rfl⟩)
    have hlength : (frameOf d content maxsize 0).data.length = min maxsize content.length := by
      show (chunk content maxsize 0).length = _
      rw [chunk, Nat.zero_mul, List.drop_zero, List.length_take]
    rw [hlength] at hfirst
    exact hfirst
  · intro h p hp
    obtain ⟨j, -, rfl⟩ := List.mem_map.mp hp
    refine Nat.le_trans (messageSize_mono ?_) h
    show (chunk content maxsize j).length ≤ _
    rw [chunk, List.length_take, List.length_drop]
    omega

/-- The size of the largest OSC message for a block. -/
def Block.oscSize (b : Block) (packetSize : PacketSize) (sink : Int) : Nat :=
  pad4 (16 + idLength sink) + 40 + (if 0 < b.message.length then 4 else 0) +
    (if isZero b.samplerate then 0 else 8) + (if b.tt ≠ 0 then 8 else 0) +
    (if b.content.length ≤ packetSize.val - kDataHeaderSize then pad4 b.content.length
      else 8 + pad4 (packetSize.val - kDataHeaderSize))

/-- A block that is larger than a frame takes several. -/
theorem numFrames_gt_one_iff {total maxsize : Nat} (hpos : 0 < maxsize) :
    1 < numFrames total maxsize ↔ maxsize < total := by
  constructor
  · intro h
    have hlt := mul_lt_of_lt_numChunks hpos h
    omega
  · intro h
    by_contra hle
    have hcover := @le_numChunks_mul total maxsize hpos
    have hone := Nat.mul_le_mul_right maxsize (Nat.le_of_not_lt hle)
    unfold numFrames at hone
    omega

/-- The flags of a block, without the extension. -/
theorem hasBit_blockPacket (s : Source) (b : Block) {bit : Nat}
    (h : hasBit kAooBinMsgDataLowLatency bit = false) :
    hasBit (s.blockPacket b).flags bit = hasBit (s.plainBlock b).flags bit := by
  unfold Source.blockPacket Source.extend
  split
  next c _ => exact hasBit_withLowLatency _ c _ h
  next => rfl

/-- The size of a data message, from its block. -/
theorem messageSize_blockPacket (s : Source) (hb : s.binary = false) (b : Block) (sink id : Int) :
    messageSize false sink id (s.blockPacket b).flags
        (min (maxpacketsize s.packetSize false) b.content.length) =
      b.oscSize s.packetSize sink := by
  have hmax : maxpacketsize s.packetSize false = s.packetSize.val - kDataHeaderSize := rfl
  have hpos := maxpacketsize_pos s.packetSize false
  rw [hmax] at hpos
  obtain ⟨hrate, hframes, hmessage, -, htime, -, -⟩ := b.hasBit_flags
    (numFrames b.content.length (maxpacketsize s.packetSize s.binary))
  rw [hb] at hrate hframes hmessage htime
  have hplain : (s.plainBlock b).flags =
      b.flags (numFrames b.content.length (maxpacketsize s.packetSize false)) := by
    rw [← hb]
    rfl
  unfold messageSize optionalSize Block.oscSize
  rw [hasBit_blockPacket s b (by decide), hasBit_blockPacket s b (by decide),
    hasBit_blockPacket s b (by decide), hasBit_blockPacket s b (by decide), hplain, hrate, hframes,
    hmessage, htime]
  simp only [decide_eq_true_eq, hmax, numFrames_gt_one_iff hpos, Bool.not_eq_true']
  by_cases hcut : b.content.length ≤ s.packetSize.val - kDataHeaderSize
  · rw [if_neg (Nat.not_lt_of_le hcut), if_pos hcut, Nat.min_eq_right hcut]
    cases isZero b.samplerate <;> simp <;> omega
  · rw [if_pos (Nat.lt_of_not_le hcut), if_neg hcut, Nat.min_eq_left (by omega)]
    cases isZero b.samplerate <;> simp <;> omega

/-- **When the datagrams of a block respect the packet size**: in binary form always, in OSC form if
the largest one does. -/
theorem block_within_iff (s : Source) (b : Block) :
    (∀ e ∈ (s.sendBlock b).2, Within s.packetSize.val e.datagram) ↔
      s.sequence = invalidStream ∨ s.redundancy = 0 ∨ s.binary = true ∨
        ∀ c ∈ s.cachedSinks, b.oscSize s.packetSize c.id ≤ s.packetSize.val := by
  have hmax := s.packetSize.le
  have hmin : kDataHeaderSize + 64 ≤ s.packetSize.val := s.packetSize.ge
  by_cases hquiet : s.sequence = invalidStream ∨ s.cachedSinks = []
  · have hnone : (s.sendBlock b).2 = [] := by
      unfold Source.sendBlock
      rw [if_pos hquiet]
    rw [hnone]
    refine iff_of_true (fun _ h => absurd h List.not_mem_nil) ?_
    rcases hquiet with hinvalid | hsinks
    · exact Or.inl hinvalid
    · rw [hsinks]
      exact Or.inr (Or.inr (Or.inr fun _ h => absurd h List.not_mem_nil))
  obtain ⟨hvalid, -⟩ := not_or.mp hquiet
  have hsent : (s.sendBlock b).2 = upToFailure ((List.replicate s.redundancy
      (framePackets (s.blockPacket b) b.content
        (maxpacketsize s.packetSize s.binary))).flatten.flatMap
          (emit s.cachedSinks s.id s.binary)) := by
    unfold Source.sendBlock
    rw [if_neg hquiet]
  rw [hsent, within_upToFailure]
  by_cases hzero : s.redundancy = 0
  · rw [hzero]
    exact iff_of_true (fun _ h => absurd h List.not_mem_nil) (Or.inr (Or.inl rfl))
  -- Each repetition sends the same frames.
  have hframes : (∀ e ∈ (List.replicate s.redundancy (framePackets (s.blockPacket b) b.content
      (maxpacketsize s.packetSize s.binary))).flatten.flatMap (emit s.cachedSinks s.id s.binary),
      Within s.packetSize.val e.datagram) ↔
      ∀ p ∈ framePackets (s.blockPacket b) b.content (maxpacketsize s.packetSize s.binary),
        ∀ e ∈ emit s.cachedSinks s.id s.binary p, Within s.packetSize.val e.datagram := by
    simp only [List.mem_flatMap, List.mem_flatten, List.mem_replicate]
    constructor
    · intro h p hp e he
      exact h e ⟨p, ⟨_, ⟨hzero, rfl⟩, hp⟩, he⟩
    · intro h e ⟨p, ⟨_, ⟨_, hps⟩, hp⟩, he⟩
      exact h p (hps ▸ hp) e he
  rw [hframes]
  have hpos := maxpacketsize_pos s.packetSize s.binary
  cases hb : s.binary with
  | true =>
    refine iff_of_true (fun p hp => within_emit_binary hmax _ _ ?_) (Or.inr (Or.inr (Or.inl rfl)))
    rw [framePackets_eq _ fun _ => hb ▸ hpos] at hp
    obtain ⟨j, -, rfl⟩ := List.mem_map.mp hp
    have hlength : (chunk b.content (maxpacketsize s.packetSize true) j).length ≤
        maxpacketsize s.packetSize true := by
      rw [chunk, List.length_take]
      exact Nat.min_le_left _ _
    have hroom : maxpacketsize s.packetSize true = s.packetSize.val - kBinDataHeaderSize := rfl
    have hheader : kBinDataHeaderSize = 104 := rfl
    have hdata : kDataHeaderSize = 82 := rfl
    show kBinDataHeaderSize + (chunk b.content (maxpacketsize s.packetSize true) j).length ≤ _
    omega
  | false =>
    have hflags : ∀ p ∈ framePackets (s.blockPacket b) b.content (maxpacketsize s.packetSize false),
        hasBit p.flags kAooBinMsgDataXRun = false := by
      intro p hp
      rw [framePackets_eq _ fun _ => hb ▸ hpos] at hp
      obtain ⟨j, -, rfl⟩ := List.mem_map.mp hp
      show hasBit (s.blockPacket b).flags kAooBinMsgDataXRun = false
      rw [hasBit_blockPacket s b (by decide)]
      exact (b.hasBit_flags _).2.2.2.1
    have hsinks : (∀ p ∈ framePackets (s.blockPacket b) b.content
          (maxpacketsize s.packetSize false),
        ∀ e ∈ emit s.cachedSinks s.id false p, Within s.packetSize.val e.datagram) ↔
        ∀ c ∈ s.cachedSinks, b.oscSize s.packetSize c.id ≤ s.packetSize.val := by
      constructor
      · intro h c hc
        rw [← messageSize_blockPacket s hb b c.id s.id]
        refine (forall_framePackets_iff _ (hb ▸ hpos)).mp fun p hp => ?_
        exact (within_emit_osc hmax _ _ (hflags p hp)).mp (h p hp) c hc
      · intro h p hp
        refine (within_emit_osc hmax _ _ (hflags p hp)).mpr fun c hc => ?_
        have hc' := h c hc
        rw [← messageSize_blockPacket s hb b c.id s.id] at hc'
        exact (forall_framePackets_iff _ (hb ▸ hpos)).mpr hc' p hp
    rw [hsinks]
    constructor
    · exact fun h => Or.inr (Or.inr (Or.inr h))
    · rintro (h | h | h | h)
      · exact absurd h hvalid
      · exact absurd h hzero
      · cases h
      · exact h

/-! ## Sending again -/

/-- One packet that is sent again. -/
theorem within_resent {o : Original} (h : o.Ok) (hn : o.packet.numFrames ≤ 32767) {p : DataPacket}
    (hp : p ∈ o.packets) {packetSize : PacketSize} (sink : SinkDesc) (id : Int) (binary : Bool) :
    Within packetSize.val
        (if binary then sendPacketBin sink.cached id { p with channel := sink.channel, tt := 0 }
          else sendPacketOsc sink.cached id { p with channel := sink.channel, tt := 0 }) ↔
      messageSize binary sink.id id o.packet.flags p.data.length ≤ packetSize.val := by
  have hmax := packetSize.le
  have hmin : kDataHeaderSize + 64 ≤ packetSize.val := packetSize.ge
  obtain ⟨-, hflags, hframes⟩ := h.packet_fields hp
  rw [← hflags]
  cases binary with
  | true =>
    rw [if_pos rfl]
    exact within_sendPacketBin hmax sink.cached id (h.wire hp sink.channel).untimed
      (by show p.numFrames < 65536; omega)
  | false =>
    rw [if_neg Bool.false_ne_true]
    cases hxrun : hasBit p.flags kAooBinMsgDataXRun with
    | false =>
      exact within_sendPacketOsc hmax sink.cached id
        (d := { p with channel := sink.channel, tt := 0 }) hxrun
    | true =>
      -- A block without content is small.
      have hnil : o.content = [] := h.xrun (hflags ▸ hxrun)
      have hdata : p.data.length = 0 := by
        rw [h.packets, hnil, framePackets_eq _ (fun hne => absurd rfl hne)] at hp
        obtain ⟨j, -, rfl⟩ := List.mem_map.mp hp
        show (chunk ([] : List UInt8) o.maxsize j).length = 0
        rw [chunk, List.drop_nil, List.take_nil]
        rfl
      have hsize := DataPacket.size_args_xrun { p with channel := sink.channel, tt := 0 } sink.id id
        sink.streamId hxrun
      have hlen := idLength_le sink.id_range
      have hsmall : messageSize false sink.id id p.flags 0 ≤ packetSize.val := by
        have hoptional : optionalSize p.flags ≤ 28 := by
          unfold optionalSize
          split <;> split <;> split <;> split <;> omega
        have hdata : kDataHeaderSize = 82 := rfl
        unfold messageSize pad4
        rw [if_neg Bool.false_ne_true]
        omega
      rw [hdata]
      refine iff_of_true ?_ hsmall
      refine (within_osc hmax ⟨.sinkData sink.id, DataPacket.args
        { p with channel := sink.channel, tt := 0 } id sink.streamId⟩).mpr ?_
      exact Nat.le_trans (Nat.le_add_right _ 4) (Nat.le_trans (Nat.le_of_eq hsize) hsmall)

/-- **When the datagrams that answer a request respect the packet size**: the frames of the stored
block must fit with the settings of now. -/
theorem resend_within_iff {o : Original} (h : o.Ok) (hn : o.packet.numFrames ≤ 32767) (s : Source)
    (sink : SinkDesc) (r : DataRequest) (hfind : s.history.find r.sequence = some o.stored) :
    ∃ es, s.resendRequest sink r = some es ∧
      ((∀ e ∈ es, Within s.packetSize.val e.datagram) ↔
        ∀ j < max 1 (numFrames o.content.length o.maxsize),
          o.packet.numFrames = 0 ∨ r.selects j = true →
          messageSize s.binary sink.id s.id o.packet.flags
            (min o.maxsize (o.content.length - j * o.maxsize)) ≤ s.packetSize.val) := by
  have hframes := h.frames
  -- The frames that are sent are those of the block that are asked for, or its only one.
  have hresend : o.stored.resend sink.channel r =
      some ((o.packets.filter fun p => o.packet.numFrames = 0 ∨ r.selects p.frameIndex = true).map
        fun p => { p with channel := sink.channel, tt := 0 }) := by
    by_cases hzero : o.packet.numFrames = 0
    · rw [h.resend_empty hzero, List.filter_eq_self.mpr fun p _ => decide_eq_true (Or.inl hzero)]
    · rw [h.resend_eq hn (by omega)]
      refine congrArg some (congrArg _ (List.filter_congr fun p _ => ?_))
      simp [hzero]
  refine ⟨_, by unfold Source.resendRequest; rw [hfind]; simp only []; rw [hresend]; rfl, ?_⟩
  have hlength : ∀ j : Nat, (frameOf o.packet o.content o.maxsize j).data.length =
      min o.maxsize (o.content.length - j * o.maxsize) := by
    intro j
    show (chunk o.content o.maxsize j).length = _
    rw [chunk, List.length_take, List.length_drop]
  have hmem : ∀ j : Nat, j < max 1 (numFrames o.content.length o.maxsize) →
      frameOf o.packet o.content o.maxsize j ∈ o.packets := by
    intro j hj
    rw [h.packets, framePackets_eq _ h.maxsize.2]
    exact List.mem_map.mpr ⟨j, List.mem_range.mpr hj, rfl⟩
  simp only [List.map_map, List.forall_mem_map]
  constructor
  · intro hall j hj hsel
    have hframe := hall (frameOf o.packet o.content o.maxsize j)
      (List.mem_filter.mpr ⟨hmem j hj, decide_eq_true hsel⟩)
    rw [← hlength j]
    exact (within_resent h hn (hmem j hj) sink s.id s.binary).mp hframe
  · intro hall p hp
    obtain ⟨hp, hsel⟩ := List.mem_filter.mp hp
    have hp' := hp
    rw [h.packets, framePackets_eq _ h.maxsize.2] at hp'
    obtain ⟨j, hj, rfl⟩ := List.mem_map.mp hp'
    refine (within_resent h hn hp sink s.id s.binary).mpr ?_
    rw [hlength j]
    exact hall j (List.mem_range.mp hj) (of_decide_eq_true hsel)

end Stream

end Aoo
