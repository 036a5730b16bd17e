import Aoo.Stream.Packet

/-!
# Stream data on the wire

What the parsers of the sink make of the packets that a source sends. `Wire`
collects what holds of every packet that leaves a source (`Stream.Source` shows
it); on such packets the binary form loses nothing as long as the channel fits
one byte and the frame count two, and the parser refuses or changes every other
packet (`roundTrips_bin_iff`).
-/

namespace Aoo.Stream

open Lib

/-- The frame index is inside the block; the one packet of a block without
frames has index 0 and no content. -/
def DataPacket.FrameOk (d : DataPacket) : Prop :=
  (0 ≤ d.frameIndex ∧ d.frameIndex < d.numFrames) ∨
    (d.numFrames = 0 ∧ d.frameIndex = 0 ∧ d.data = [])

/-- The low-latency fields of a stream with a valid configuration. -/
def DataPacket.LowLatencyOk (d : DataPacket) : Prop :=
  d.protocolVersion = AOO_LOW_LATENCY_PROTOCOL_VERSION ∧ validProfile d.transportProfile = true ∧
    validPcmFormat d.pcmFormat = true ∧
    validProfileFormat d.transportProfile d.pcmFormat = true ∧ d.blockFrames ≠ 0 ∧
    d.channelCount ≠ 0 ∧ d.channelCount.toNat ≤ AOO_LOW_LATENCY_MAX_CHANNELS

/-- What holds of every packet that a source sends: fields are in the ranges of
their types, and a flag that is not set announces a default. -/
structure DataPacket.Wire (d : DataPacket) : Prop where
  sequence : 0 ≤ d.sequence ∧ d.sequence < 2147483648
  tt : d.tt < 18446744073709551616
  samplerate : d.samplerate < 18446744073709551616
  total : 0 ≤ d.totalSize ∧ d.totalSize < 2147483648
  msg : 0 ≤ d.msgSize ∧ d.msgSize < 2147483648
  flags : d.flags < 256
  frame : d.FrameOk
  noFrames : hasBit d.flags kAooBinMsgDataFrames = false →
    d.totalSize = d.data.length ∧ d.numFrames = if d.data.length > 0 then 1 else 0
  noMessage : hasBit d.flags kAooBinMsgDataStreamMessage = false → d.msgSize = 0
  noRate : hasBit d.flags kAooBinMsgDataSampleRate = false → isZero d.samplerate = true
  noTime : hasBit d.flags kAooBinMsgDataTimeStamp = false → d.tt = 0
  lowLatency : hasBit d.flags kAooBinMsgDataLowLatency = true → d.LowLatencyOk

/-- The parsed packet has the fields of the one that was sent: rates are equal
as numbers, and the fields of the low-latency extension are compared when the
packet has it. -/
structure Same (d : DataPacket) (n : NetPacket) : Prop where
  sequence : n.sequence = d.sequence
  channel : n.channel = d.channel
  flags : n.flags = d.flags
  total : n.totalSize = d.totalSize
  msg : n.msgSize = d.msgSize
  frames : n.numFrames = d.numFrames
  index : n.frameIndex = d.frameIndex
  samplerate : n.samplerate = d.samplerate ∨ (isZero n.samplerate ∧ isZero d.samplerate)
  tt : n.tt = d.tt
  data : n.data = d.data
  lowLatency : hasBit d.flags kAooBinMsgDataLowLatency = true →
    n.protocolVersion = d.protocolVersion ∧ n.transportProfile = d.transportProfile ∧
    n.pcmFormat = d.pcmFormat ∧ n.absoluteSamplePosition = d.absoluteSamplePosition ∧
    n.sourceTimestamp = d.sourceTimestamp ∧ n.blockFrames = d.blockFrames ∧
    n.channelCount = d.channelCount

/-! ## The fixed part -/

@[simp] theorem DataPacket.framesSection_length (d : DataPacket) :
    d.framesSection.length = 8 := by
  simp [DataPacket.framesSection]

theorem DataPacket.head_length (d : DataPacket) (streamId : Int) :
    (d.head streamId).length = 12 + d.sections.length := by
  simp only [DataPacket.head, List.length_append, int32Bytes_length, toBytes_length,
    List.length_singleton]
  omega

theorem DataPacket.sections_length_le (d : DataPacket) : d.sections.length ≤ 28 := by
  simp only [DataPacket.sections, List.length_append]
  split <;> split <;> split <;> split <;> simp

theorem readFrames_append {d : DataPacket} (ht : 0 ≤ d.totalSize ∧ d.totalSize < 2147483648)
    (hn : 0 ≤ d.numFrames ∧ d.numFrames < 65536) (hi : 0 ≤ d.frameIndex ∧ d.frameIndex < 65536)
    (rest : List UInt8) :
    readFrames (d.framesSection ++ rest) = (d.totalSize, d.numFrames, d.frameIndex) := by
  have h16 : ∀ v : Int, 0 ≤ v → v < 65536 → ((unsigned 65536 v % 65536 : Nat) : Int) = v := by
    intro v h0 h1
    rw [unsigned_toNat_of_lt h0 h1]
    omega
  simp only [readFrames, DataPacket.framesSection, List.append_assoc, Prod.mk.injEq]
  refine ⟨int32Field_append (by omega) ht.2 _, ?_, ?_⟩
  · rw [drop_int32Bytes_append, int16Bytes, field_append]
    exact h16 _ hn.1 hn.2
  · rw [int32Bytes, drop_toBytes_append_of_le (by decide), int16Bytes, int16Bytes]
    rw [drop_toBytes_append, field_append]
    exact h16 _ hi.1 hi.2

/-- What the parser reads off the fixed part. -/
theorem head_fields {d : DataPacket} (h : d.Wire) (hlen : d.data.length < 65536) {streamId : Int}
    (hs : -2147483648 ≤ streamId ∧ streamId < 2147483648) (rest : List UInt8) :
    let bs := d.head streamId ++ rest
    int32Field bs = streamId ∧ int32Field (bs.drop 4) = d.sequence ∧
      field 1 (bs.drop 8) = unsigned 256 d.channel ∧ field 1 (bs.drop 9) = d.flags ∧
      field 2 (bs.drop 10) = d.data.length ∧ bs.drop 12 = d.sections ++ rest := by
  intro bs
  have hbs : bs = toBytes 4 (unsigned 4294967296 streamId) ++
      (toBytes 4 (unsigned 4294967296 d.sequence) ++ (toBytes 1 (unsigned 256 d.channel) ++
        (toBytes 1 d.flags ++ (toBytes 2 d.data.length ++ (d.sections ++ rest))))) := by
    have hbyte : [toByte d.channel] = toBytes 1 (unsigned 256 d.channel) := by
      simp [toBytes, toByte]
    simp only [bs, DataPacket.head, int32Bytes, hbyte, List.append_assoc]
  have hch : unsigned 256 d.channel < 256 := unsigned_lt (by decide) _
  have hseq := h.sequence
  refine ⟨?_, ?_, ?_, ?_, ?_, ?_⟩
  · rw [hbs]
    exact int32Field_append hs.1 hs.2 _
  · rw [hbs, drop_toBytes_append]
    exact int32Field_append (by omega) hseq.2 _
  · rw [hbs]
    simp only [drop_toBytes_append_of_le, Nat.reduceLeDiff, Nat.reduceSub, List.drop_zero,
      field_append]
    omega
  · rw [hbs]
    simp only [drop_toBytes_append_of_le, Nat.reduceLeDiff, Nat.reduceSub, List.drop_zero,
      field_append]
    have := h.flags
    omega
  · rw [hbs]
    simp only [drop_toBytes_append_of_le, Nat.reduceLeDiff, Nat.reduceSub, List.drop_zero,
      field_append]
    omega
  · rw [hbs]
    simp only [drop_toBytes_append_of_le, Nat.reduceLeDiff, Nat.reduceSub, List.drop_zero]

/-! ## The low-latency section -/

/-- What the parser has read in front of the low-latency section. -/
def DataPacket.plain (d : DataPacket) (streamId : Int) : NetPacket where
  sequence := d.sequence
  channel := d.channel
  tt := d.tt
  samplerate := if hasBit d.flags kAooBinMsgDataSampleRate then d.samplerate else 0
  totalSize := d.totalSize
  msgSize := d.msgSize
  numFrames := d.numFrames
  frameIndex := d.frameIndex
  data := []
  flags := d.flags
  streamId := streamId

/-- What the parser makes of the whole packet. -/
def DataPacket.received (d : DataPacket) (streamId : Int) : NetPacket :=
  if hasBit d.flags kAooBinMsgDataLowLatency then
    { d.plain streamId with
      data := d.data
      protocolVersion := d.protocolVersion
      transportProfile := d.transportProfile
      pcmFormat := d.pcmFormat
      absoluteSamplePosition := d.absoluteSamplePosition
      sourceTimestamp := d.sourceTimestamp
      blockFrames := d.blockFrames
      channelCount := d.channelCount }
  else { d.plain streamId with data := d.data }

/-- What follows the fixed part and the optional sections. -/
def DataPacket.tail (d : DataPacket) (streamId : Int) : List UInt8 :=
  if hasBit d.flags kAooBinMsgDataLowLatency then (d.header streamId).bytes ++ d.data else d.data

/-- The header that a source fills in is valid. -/
theorem DataPacket.header_valid {d : DataPacket} (h : d.LowLatencyOk) (hf : d.FrameOk)
    (hn : d.numFrames < 65536) (streamId : Int) : (d.header streamId).valid = true := by
  have hframes : (if (d.header streamId).fragmentCount == 0 then
      (d.header streamId).fragmentIndex == 0 && (d.header streamId).payloadBytes == 0
      else decide ((d.header streamId).fragmentIndex < (d.header streamId).fragmentCount)) =
      true := by
    rcases hf with ⟨h0, hlt⟩ | ⟨hzero, hidx, hdata⟩
    · have h16 : ∀ v : Int, 0 ≤ v → v < 65536 →
          (UInt16.ofNat (unsigned 65536 v)).toNat = v.toNat := by
        intro v h0 h1
        rw [unsigned_toNat_of_lt h0 h1, UInt16.toNat_ofNat']
        omega
      have hcount : (d.header streamId).fragmentCount.toNat = d.numFrames.toNat :=
        h16 _ (by omega) hn
      have hindex : (d.header streamId).fragmentIndex.toNat = d.frameIndex.toNat :=
        h16 _ h0 (by omega)
      have hne : ¬ ((d.header streamId).fragmentCount == 0) = true := by
        rw [beq_iff_eq, ← UInt16.toNat_inj, hcount]
        simp only [UInt16.toNat_zero]
        omega
      rw [if_neg hne, decide_eq_true_eq, UInt16.lt_iff_toNat_lt, hcount, hindex]
      omega
    · simp only [DataPacket.header, hzero, hidx, hdata]
      decide
  obtain ⟨hversion, hprofile, hformat, hboth, hblock, hchannels, hmax⟩ := h
  simp only [AooLowLatencyPacketHeader.valid, Bool.and_eq_true]
  refine ⟨⟨⟨⟨⟨⟨⟨⟨?_, ?_⟩, hprofile⟩, hformat⟩, hboth⟩, ?_⟩, hframes⟩, ?_⟩, ?_⟩
  · exact beq_iff_eq.mpr hversion
  · rfl
  · exact bne_iff_ne.mpr hblock
  · exact bne_iff_ne.mpr hchannels
  · exact decide_eq_true hmax

theorem writeBinData_eq {d : DataPacket} (h : d.Wire) (hn : d.numFrames < 65536) {size : Nat}
    (hsize : 92 ≤ size) (streamId : Int) :
    writeBinData size streamId d = d.head streamId ++ d.tail streamId := by
  rw [writeBinData, DataPacket.tail]
  by_cases hll : hasBit d.flags kAooBinMsgDataLowLatency = true
  · have hroom : AOO_LOW_LATENCY_PACKET_HEADER_SIZE ≤ size - (d.head streamId).length := by
      rw [d.head_length, AOO_LOW_LATENCY_PACKET_HEADER_SIZE]
      have := d.sections_length_le
      omega
    rw [if_pos hll, if_pos hll, AooLowLatencyPacketHeader.encode_eq _ hroom,
      if_pos (DataPacket.header_valid (h.lowLatency hll) h.frame hn streamId)]
  · rw [if_neg hll, if_neg hll]

/-- The low-latency section repeats what the fields in front of it say. -/
theorem readLowLatency_tail {d : DataPacket} (h : d.Wire) (hn : d.numFrames < 65536)
    (hlen : d.data.length < 65536) (streamId : Int) :
    readLowLatency (d.plain streamId) d.data.length (d.tail streamId) =
      some ({ d.received streamId with data := [] }, d.data) := by
  by_cases hll : hasBit d.flags kAooBinMsgDataLowLatency = true
  · have hdecode : AooLowLatencyPacketHeader.decode ((d.header streamId).bytes ++ d.data) =
        some (d.header streamId) := by
      refine AooLowLatencyPacketHeader.decode_bytes
        (DataPacket.header_valid (h.lowLatency hll) h.frame hn streamId) ?_
      simp only [DataPacket.header, UInt32.toNat_ofNat']
      omega
    have hframe : 0 ≤ d.frameIndex ∧ d.frameIndex < 65536 ∧ 0 ≤ d.numFrames := by
      rcases h.frame with hf | hf <;> omega
    have hsame : ¬ ((d.header streamId).streamId.toNat ≠ unsigned 4294967296 streamId ∨
        (d.header streamId).sequence.toNat ≠ unsigned 4294967296 d.sequence ∨
        ((d.header streamId).fragmentIndex.toNat : Int) ≠ d.frameIndex ∨
        ((d.header streamId).fragmentCount.toNat : Int) ≠ d.numFrames ∨
        (d.header streamId).payloadBytes.toNat ≠ d.data.length) := by
      have h1 : unsigned 4294967296 streamId < 4294967296 := unsigned_lt (by decide) _
      have h2 : unsigned 4294967296 d.sequence < 4294967296 := unsigned_lt (by decide) _
      simp only [DataPacket.header, UInt64.toNat_ofNat', UInt32.toNat_ofNat', UInt16.toNat_ofNat']
      rw [unsigned_toNat_of_lt hframe.1 hframe.2.1, unsigned_toNat_of_lt hframe.2.2 hn]
      omega
    have hroom : ¬ ((d.header streamId).bytes ++ d.data).length <
        AOO_LOW_LATENCY_PACKET_HEADER_SIZE := by
      rw [List.length_append, AooLowLatencyPacketHeader.bytes_length,
        AOO_LOW_LATENCY_PACKET_HEADER_SIZE]
      omega
    have hdrop : ((d.header streamId).bytes ++ d.data).drop AOO_LOW_LATENCY_PACKET_HEADER_SIZE =
        d.data := List.drop_left' (AooLowLatencyPacketHeader.bytes_length _)
    simp only [readLowLatency, DataPacket.plain, DataPacket.tail, DataPacket.received, if_pos hll,
      if_neg hroom, hdecode, hdrop]
    rw [if_neg hsame]
    rfl
  · simp only [readLowLatency, DataPacket.plain, DataPacket.tail, DataPacket.received, if_neg hll]

/-! ## The whole packet -/

/-- Each section gives its field, and the default stands for a missing one. -/
theorem sections_fields {d : DataPacket} (h : d.Wire) (hn : d.numFrames < 65536)
    (rest : List UInt8) :
    (if hasBit d.flags kAooBinMsgDataFrames then readFrames (d.framesSection ++ rest)
      else ((d.data.length : Int), if d.data.length > 0 then 1 else 0, 0)) =
        (d.totalSize, d.numFrames, d.frameIndex) ∧
    (if hasBit d.flags kAooBinMsgDataStreamMessage then
      int32Field (int32Bytes d.msgSize ++ rest) else 0) = d.msgSize ∧
    (if hasBit d.flags kAooBinMsgDataSampleRate then field 8 (toBytes 8 d.samplerate ++ rest)
      else 0) = (if hasBit d.flags kAooBinMsgDataSampleRate then d.samplerate else 0) ∧
    (if hasBit d.flags kAooBinMsgDataTimeStamp then field 8 (toBytes 8 d.tt ++ rest) else 0) =
      d.tt := by
  have hframe := h.frame
  have hmsg := h.msg
  have htt := h.tt
  have hrate := h.samplerate
  refine ⟨?_, ?_, ?_, ?_⟩
  · split
    next => exact readFrames_append h.total (by rcases hframe with hf | hf <;> omega)
              (by rcases hframe with hf | hf <;> omega) rest
    next hno =>
      obtain ⟨htotal, hnum⟩ := h.noFrames (by simpa using hno)
      have hidx : d.frameIndex = 0 := by
        rcases hframe with hf | hf
        · rw [hnum] at hf
          split at hf <;> omega
        · exact hf.2.1
      rw [htotal, hnum, hidx]
  · split
    next => exact int32Field_append (by omega) hmsg.2 rest
    next hno => exact (h.noMessage (by simpa using hno)).symm
  · rw [field_append, Nat.mod_eq_of_lt (by simpa using hrate)]
  · split
    next => rw [field_append, Nat.mod_eq_of_lt (by simpa using htt)]
    next hno => exact (h.noTime (by simpa using hno)).symm

/-- **The binary parser undoes the binary encoder.** -/
theorem parseDataBin_writeBinData {d : DataPacket} (h : d.Wire)
    (hc : 0 ≤ d.channel ∧ d.channel < 256) (hn : d.numFrames < 65536)
    (hlen : d.data.length < 65536) {size : Nat} (hsize : 92 ≤ size) {streamId : Int}
    (hs : -2147483648 ≤ streamId ∧ streamId < 2147483648) :
    parseDataBin (writeBinData size streamId d) = some (d.received streamId) := by
  obtain ⟨h1, h2, h3, h4, h5, h6⟩ := head_fields h hlen hs (d.tail streamId)
  have hlong : ¬ (d.head streamId ++ d.tail streamId).length < 12 := by
    rw [List.length_append, d.head_length]
    omega
  have hch : ((unsigned 256 d.channel : Nat) : Int) = d.channel := unsigned_of_lt hc.1 hc.2
  rw [writeBinData_eq h hn hsize, parseDataBin, if_neg hlong]
  simp only [h1, h2, h3, h4, h5, h6, hch, DataPacket.sections, List.append_assoc]
  -- peel off the sections one by one
  simp only [readIf_append _ _ _ d.framesSection_length, readIf_append _ _ _ (int32Bytes_length _),
    readIf_append _ _ _ (toBytes_length 8 _), Option.bind_some, (sections_fields h hn _).1,
    (sections_fields h hn _).2.1, (sections_fields h hn _).2.2.1, (sections_fields h hn _).2.2.2]
  have hll := readLowLatency_tail h hn hlen streamId
  rw [DataPacket.plain] at hll
  rw [hll, Option.bind_some]
  simp only [Nat.lt_irrefl, if_false, List.take_length, DataPacket.received]
  split <;> rfl

theorem received_same {d : DataPacket} (h : d.Wire) (streamId : Int) :
    Same d (d.received streamId) := by
  have hrate : (d.plain streamId).samplerate = d.samplerate ∨
      (isZero (d.plain streamId).samplerate ∧ isZero d.samplerate) := by
    unfold DataPacket.plain
    by_cases hr : hasBit d.flags kAooBinMsgDataSampleRate = true
    · exact Or.inl (if_pos hr)
    · refine Or.inr ⟨?_, h.noRate (by simpa using hr)⟩
      simp only [if_neg hr]
      rfl
  unfold DataPacket.received
  split
  next => exact ⟨rfl, rfl, rfl, rfl, rfl, rfl, rfl, hrate, rfl, rfl,
            fun _ => ⟨rfl, rfl, rfl, rfl, rfl, rfl, rfl⟩⟩
  next hno => exact ⟨rfl, rfl, rfl, rfl, rfl, rfl, rfl, hrate, rfl, rfl, fun hc => absurd hc hno⟩

theorem DataPacket.received_streamId (d : DataPacket) (streamId : Int) :
    (d.received streamId).streamId = streamId := by
  unfold DataPacket.received
  split <;> rfl

/-- The low-latency section changes nothing in front of it. -/
theorem readLowLatency_fields {d n : NetPacket} {size : Nat} {bs rest : List UInt8}
    (h : readLowLatency d size bs = some (n, rest)) :
    n.channel = d.channel ∧ n.numFrames = d.numFrames ∧ n.flags = d.flags := by
  unfold readLowLatency at h
  split at h
  next =>
    split at h
    next => cases h
    next =>
      split at h
      next => cases h
      next =>
        split at h
        next => cases h
        next =>
          cases h
          exact ⟨rfl, rfl, rfl⟩
  next =>
    cases h
    exact ⟨rfl, rfl, rfl⟩

/-- Whatever the binary parser accepts has a channel of one byte and a frame
count of two; the flags are those on the wire. -/
theorem parseDataBin_range {bs : List UInt8} {n : NetPacket} (h : parseDataBin bs = some n) :
    (0 ≤ n.channel ∧ n.channel < 256) ∧ n.numFrames < 65536 ∧ n.flags = field 1 (bs.drop 9) := by
  unfold parseDataBin at h
  split at h
  next => cases h
  next =>
    simp only [Option.bind_eq_some_iff, Prod.exists] at h
    obtain ⟨total, num, index, bs₁, h₁, msgSize, bs₂, -, rate, bs₃, -, tt, bs₄, -, d, bs₅, h₅,
      hd⟩ := h
    obtain ⟨hc, hn, hf⟩ := readLowLatency_fields h₅
    split at hd
    next => cases hd
    next =>
      cases hd
      simp only at hc hn hf ⊢
      rw [hc, hn, hf]
      have hch := field_lt 1 (bs.drop 8)
      refine ⟨by omega, ?_, rfl⟩
      unfold readIf at h₁
      split at h₁
      next =>
        split at h₁
        next => cases h₁
        next =>
          have hnum : (field 2 ((bs.drop 12).drop 4) : Int) = num :=
            congrArg (fun p => p.1.2.1) (Option.some.inj h₁)
          have := field_lt 2 ((bs.drop 12).drop 4)
          omega
      next =>
        have hnum : (if field 2 (bs.drop 10) > 0 then 1 else 0 : Int) = num :=
          congrArg (fun p => p.1.2.1) (Option.some.inj h₁)
        split at hnum <;> omega

/-! ## Datagrams -/

/-- The size of the arguments of a binary data message. -/
def DataPacket.binSize (d : DataPacket) : Nat :=
  12 + d.sections.length + (if hasBit d.flags kAooBinMsgDataLowLatency then 52 else 0) +
    d.data.length

theorem DataPacket.head_tail_length (d : DataPacket) (streamId : Int) :
    (d.head streamId ++ d.tail streamId).length = d.binSize := by
  rw [List.length_append, d.head_length, DataPacket.tail, DataPacket.binSize]
  split
  · rw [List.length_append, AooLowLatencyPacketHeader.bytes_length]
    omega
  · omega

/-- The size of the header of a binary message between these ids. -/
def headerSize (toId fromId : Int) : Nat := if toId ≥ 256 ∨ fromId ≥ 256 then 12 else 4

theorem binmsgWriteHeader_length {size : Nat} (hsize : 12 ≤ size) (type : AooMsgType) (cmd : Nat)
    (toId fromId : Int) :
    (binmsgWriteHeader size type cmd toId fromId).length = headerSize toId fromId := by
  unfold binmsgWriteHeader headerSize
  split
  · rw [if_neg (by omega)]
    simp
  · rw [if_neg (by omega)]
    rfl

/-- The binary message fits the local buffer of the sender. -/
def Fits (s : CachedSink) (id : Int) (d : DataPacket) : Prop :=
  headerSize s.id id + d.binSize ≤ AOO_MAX_PACKET_SIZE

instance (s : CachedSink) (id : Int) (d : DataPacket) : Decidable (Fits s id d) :=
  inferInstanceAs (Decidable (_ ≤ _))

theorem sendPacketBin_eq {d : DataPacket} (h : d.Wire) (hn : d.numFrames < 65536)
    (s : CachedSink) (id : Int) :
    (Fits s id d → sendPacketBin s id d =
      some (.bin (binmsgWriteHeader AOO_MAX_PACKET_SIZE .sink kAooBinMsgCmdData s.id id ++
        (d.head s.streamId ++ d.tail s.streamId)))) ∧
    (¬ Fits s id d → sendPacketBin s id d = none) := by
  have hlen := @binmsgWriteHeader_length AOO_MAX_PACKET_SIZE (by decide) .sink kAooBinMsgCmdData
    s.id id
  have hhead : headerSize s.id id ≤ 12 := by
    unfold headerSize
    split <;> omega
  have hwrite := writeBinData_eq h hn
    (show 92 ≤ AOO_MAX_PACKET_SIZE - headerSize s.id id by unfold AOO_MAX_PACKET_SIZE; omega)
    s.streamId
  simp only [sendPacketBin, hlen, hwrite, d.head_tail_length]
  exact ⟨fun hf => if_pos hf, fun hf => if_neg hf⟩

/-- The datagram is accepted and gives back ids, stream id and packet. -/
def RoundTrips (id : Int) (s : CachedSink) (d : DataPacket) (datagram : Option Datagram) : Prop :=
  ∃ m n, datagram = some m ∧ parseData m = some (s.id, id, n) ∧ n.streamId = s.streamId ∧ Same d n

/-- What a binary datagram gives back has a channel of one byte and a frame
count of two. -/
theorem RoundTrips.range {id : Int} {s : CachedSink} {d : DataPacket} {data : List UInt8}
    (h : RoundTrips id s d (some (.bin data))) :
    (0 ≤ d.channel ∧ d.channel < 256) ∧ d.numFrames < 65536 := by
  obtain ⟨m, n, hm, hp, -, hsame⟩ := h
  cases hm
  simp only [parseData] at hp
  split at hp
  next =>
    obtain ⟨n', hn', heq⟩ := Option.map_eq_some_iff.mp hp
    obtain ⟨hc, hn, -⟩ := parseDataBin_range hn'
    have hnn : n' = n := by
      rw [Prod.mk.injEq, Prod.mk.injEq] at heq
      exact heq.2.2
    rw [hnn, hsame.channel] at hc
    rw [hnn, hsame.frames] at hn
    exact ⟨hc, hn⟩
  next => cases hp

/-- A header and the encoded packet behind it parse to the packet. -/
theorem parseData_bin {d : DataPacket} (h : d.Wire) {s : CachedSink} {id : Int}
    (hs : 0 ≤ s.id ∧ s.id < 2147483648) (hid : 0 ≤ id ∧ id < 2147483648)
    (hstream : -2147483648 ≤ s.streamId ∧ s.streamId < 2147483648)
    (hc : 0 ≤ d.channel ∧ d.channel < 256) (hn : d.numFrames < 65536)
    (hlen : d.data.length < 65536) :
    parseData (.bin (binmsgWriteHeader AOO_MAX_PACKET_SIZE .sink kAooBinMsgCmdData s.id id ++
      (d.head s.streamId ++ d.tail s.streamId))) = some (s.id, id, d.received s.streamId) := by
  obtain ⟨h1, h2, h3, h4, h5⟩ := @binmsgWriteHeader_append AOO_MAX_PACKET_SIZE (by decide) .sink
    kAooBinMsgCmdData (by decide) s.id id (d.head s.streamId ++ d.tail s.streamId)
  obtain ⟨h6, h7⟩ := @binmsgWriteHeader_ids AOO_MAX_PACKET_SIZE (by decide) .sink
    kAooBinMsgCmdData (by decide) s.id id hs hid (d.head s.streamId ++ d.tail s.streamId)
  have hparse := @parseDataBin_writeBinData d h hc hn hlen 92 (Nat.le_refl _) s.streamId hstream
  rw [writeBinData_eq h hn (Nat.le_refl _)] at hparse
  simp only [parseData, h1, h2, h3, decide_eq_true h4, h5, h6, h7, hparse, Option.map_some,
    beq_self_eq_true, Bool.and_self, if_true]

/-- **When the binary form loses nothing.** -/
theorem roundTrips_bin_iff {d : DataPacket} (h : d.Wire) {s : CachedSink} {id : Int}
    (hs : 0 ≤ s.id ∧ s.id < 2147483648) (hid : 0 ≤ id ∧ id < 2147483648)
    (hstream : -2147483648 ≤ s.streamId ∧ s.streamId < 2147483648) :
    RoundTrips id s d (sendPacketBin s id d) ↔
      (0 ≤ d.channel ∧ d.channel < 256) ∧ d.numFrames < 65536 ∧ Fits s id d := by
  constructor
  · intro hr
    obtain ⟨m, hm⟩ : ∃ m, sendPacketBin s id d = some m := by
      obtain ⟨m, -, hm, -⟩ := hr
      exact ⟨m, hm⟩
    have hbin : ∃ data, m = .bin data := by
      simp only [sendPacketBin] at hm
      split at hm
      next =>
        cases hm
        exact ⟨_, rfl⟩
      next => cases hm
    obtain ⟨data, rfl⟩ := hbin
    rw [hm] at hr
    obtain ⟨hc, hn⟩ := hr.range
    refine ⟨hc, hn, ?_⟩
    by_contra hf
    rw [(sendPacketBin_eq h hn s id).2 hf] at hm
    cases hm
  · rintro ⟨hc, hn, hf⟩
    have hlen : d.data.length < 65536 := by
      unfold Fits DataPacket.binSize AOO_MAX_PACKET_SIZE at hf
      omega
    exact ⟨_, _, (sendPacketBin_eq h hn s id).1 hf, parseData_bin h hs hid hstream hc hn hlen,
      d.received_streamId _, received_same h _⟩

end Aoo.Stream
