import Aoo.Stream.Emission

/-!
# One buffer for all sinks

The binary branch of `send_packet` encodes a packet once, at a fixed place of a local buffer,
and then goes through the sinks: it writes the message header, of either size, so that it ends
where the arguments start, patches stream id and channel, and sends what lies between
the start of the header and the end of the arguments. The buffer is not cleared, neither at the
start nor between two sinks.

`Stream.Packet` has headers and arguments apart. Here they lie in the buffer as in the
source, at their offsets, over whatever has been there before.

**Main result** (`sendPacketShared_eq`): each sink gets the datagram that `send_packet_bin`
builds for it alone, for all packets that fit, all ids and all orders of the sinks.
-/

namespace Aoo.Stream

open Lib

/-! ## The code -/

/-- Where the arguments start: `buf + kAooBinMsgLargeHeaderSize`. -/
def argsOffset : Nat := kAooBinMsgLargeHeaderSize

/-- `write_bin_data` to the position `onset` of a buffer: what it has written, and the
number of bytes that it returns. If the low-latency header is refused, the bytes in front
of it have been written all the same. -/
def writeBinDataAt (buf : List UInt8) (onset : Nat) (streamId : Int) (d : DataPacket) :
    List UInt8 × Nat :=
  let size := buf.length - onset
  let buf := writeAt buf onset (d.head streamId)
  let n := (d.head streamId).length
  if hasBit d.flags kAooBinMsgDataLowLatency then
    match (d.header streamId).encode (size - n) with
    | some header =>
      let buf := writeAt buf (onset + n) header
      (writeAt buf (onset + (n + header.length)) d.data, n + header.length + d.data.length)
    | none => (buf, 0)
  else (writeAt buf (onset + n) d.data, n + d.data.length)

/-- Stream id and channel of a sink are written into the buffer. -/
def patchBuffer (buf : List UInt8) (d : DataPacket) (s : CachedSink) : List UInt8 :=
  let buf := writeAt buf argsOffset (int32Bytes s.streamId)
  let buf := writeAt buf (argsOffset + 8) [toByte s.channel]
  match findLowLatencyHeader d with
  | some header =>
    writeAt buf (argsOffset + (header + 12)) (toBytes 8 (unsigned 4294967296 s.streamId))
  | none => buf

/-- The loop of `send_packet` (binary) over the sinks. -/
def sendShared (id : Int) (d : DataPacket) (argsize : Nat) (buf : List UInt8) :
    List CachedSink → List Datagram
  | [] => []
  | s :: sinks =>
    let large := decide (s.id > 255) || decide (id > 255)
    let start := if large then 0 else argsOffset - kAooBinMsgHeaderSize
    let buf := writeAt buf start
      (binmsgWriteHeader (argsOffset - start) .sink kAooBinMsgCmdData s.id id)
    let buf := patchBuffer buf d s
    .bin ((buf.take (argsOffset + argsize)).drop start) :: sendShared id d argsize buf sinks

/-- The binary branch of `send_packet`; `buf` is the uninitialised local buffer. -/
def sendPacketShared (buf : List UInt8) (sinks : List CachedSink) (id : Int) (d : DataPacket) :
    List Datagram :=
  let r := writeBinDataAt buf argsOffset kAooIdInvalid d
  sendShared id d r.2 r.1 sinks

/-! ## Writing the arguments -/

variable {d : DataPacket} {id : Int} {s : CachedSink}

/-- Two writes in a row are one. -/
theorem writeAt_writeAt {α : Type} {buf : List α} {i : Nat} {xs : List α}
    (h : i + xs.length ≤ buf.length) (ys : List α) :
    writeAt (writeAt buf i xs) (i + xs.length) ys = writeAt buf i (xs ++ ys) := by
  have htake : (buf.take i ++ xs).length = i + xs.length := by
    rw [List.length_append, List.length_take]
    omega
  simp only [writeAt]
  rw [← htake, List.take_left, ← List.drop_drop, List.drop_left, List.drop_drop, htake,
    List.length_append, List.append_assoc, List.append_assoc, List.append_assoc, List.append_assoc,
    Nat.add_assoc]

/-- A write behind the first part leaves it alone. -/
theorem writeAt_append_right {α : Type} (a c : List α) (i : Nat) (xs : List α) :
    writeAt (a ++ c) (a.length + i) xs = a ++ writeAt c i xs := by
  rw [writeAt, writeAt, List.take_length_add_append, Nat.add_assoc, List.drop_length_add_append,
    List.append_assoc, List.append_assoc, List.append_assoc]

/-- A write inside of the first part leaves the rest alone. -/
theorem writeAt_append_left {α : Type} {a c : List α} {i : Nat} {xs : List α}
    (h : i + xs.length ≤ a.length) : writeAt (a ++ c) i xs = writeAt a i xs ++ c := by
  rw [writeAt, writeAt, List.take_append_of_le_length (by omega), List.drop_append_of_le_length h,
    List.append_assoc, List.append_assoc, List.append_assoc]

/-- The low-latency header of the packet, if there is one, is refused. -/
def DataPacket.refused (d : DataPacket) : Prop :=
  hasBit d.flags kAooBinMsgDataLowLatency = true ∧ (d.header 0).valid = false

instance (d : DataPacket) : Decidable d.refused := inferInstanceAs (Decidable (_ ∧ _))

/-- Whether a header is valid does not depend on stream id and channel. -/
theorem DataPacket.header_valid_eq (d : DataPacket) (channel streamId : Int) :
    (({ d with channel := channel } : DataPacket).header streamId).valid = (d.header 0).valid :=
  rfl

/-- With room for the fixed part, only an invalid header is refused. -/
theorem encode_header {size : Nat} (hsize : 92 ≤ size) (channel streamId : Int)
    (hd : ¬ d.refused) (hll : hasBit d.flags kAooBinMsgDataLowLatency = true) :
    (({ d with channel := channel } : DataPacket).header streamId).encode
      (size - (({ d with channel := channel } : DataPacket).head streamId).length) =
        some (d.header streamId).bytes := by
  have hvalid : (d.header 0).valid = true := Bool.of_not_eq_false fun h => hd ⟨hll, h⟩
  have hlen := ({ d with channel := channel } : DataPacket).head_length streamId
  have hsections := ({ d with channel := channel } : DataPacket).sections_length_le
  rw [AooLowLatencyPacketHeader.encode_eq, d.header_valid_eq channel streamId, hvalid]
  · rfl
  · rw [AOO_LOW_LATENCY_PACKET_HEADER_SIZE]
    omega

theorem encode_header_refused (size : Nat) (channel streamId : Int) (hd : d.refused) :
    (({ d with channel := channel } : DataPacket).header streamId).encode size = none :=
  AooLowLatencyPacketHeader.encode_of_not_valid
    ((d.header_valid_eq channel streamId).trans hd.2) size

/-- What `write_bin_data` writes for a sink. -/
theorem writeBinData_of_not_refused {size : Nat} (hsize : 92 ≤ size) (channel streamId : Int)
    (hd : ¬ d.refused) :
    writeBinData size streamId { d with channel := channel } =
      ({ d with channel := channel } : DataPacket).head streamId ++ d.tail streamId := by
  rw [writeBinData, DataPacket.tail]
  by_cases hll : hasBit d.flags kAooBinMsgDataLowLatency = true
  · have hencode := encode_header hsize channel streamId hd hll
    rw [if_pos hll, if_pos hll, hencode]
  · rw [if_neg hll, if_neg hll]

theorem writeBinData_of_refused (size : Nat) (channel streamId : Int) (hd : d.refused) :
    writeBinData size streamId { d with channel := channel } = [] := by
  rw [writeBinData, if_pos hd.1, encode_header_refused _ channel streamId hd]

/-- The arguments lie in the buffer in one piece. -/
theorem writeBinDataAt_eq {buf : List UInt8} {onset : Nat} (streamId : Int) (hd : ¬ d.refused)
    (hsize : onset + 92 ≤ buf.length) (hfit : onset + d.binSize ≤ buf.length) :
    writeBinDataAt buf onset streamId d =
      (writeAt buf onset (d.head streamId ++ d.tail streamId), d.binSize) := by
  have hlen := d.head_tail_length streamId
  have hhead := d.head_length streamId
  have hsections := d.sections_length_le
  simp only [writeBinDataAt, DataPacket.tail]
  rw [DataPacket.tail] at hlen
  split
  next hll =>
    rw [if_pos hll, List.length_append] at hlen
    have hencode := @encode_header _ (buf.length - onset) (by omega) d.channel streamId hd hll
    rw [hencode]
    simp only []
    rw [List.length_append, AooLowLatencyPacketHeader.bytes_length] at hlen
    rw [writeAt_writeAt (by omega), ← List.length_append, writeAt_writeAt, List.append_assoc]
    · congr 1
      rw [List.length_append, AooLowLatencyPacketHeader.bytes_length]
      omega
    · rw [List.length_append, AooLowLatencyPacketHeader.bytes_length]
      omega
  next hll =>
    rw [if_neg hll, List.length_append] at hlen
    rw [writeAt_writeAt (by omega), hlen]

/-! ## One sink after the other -/

/-- The header ends where the arguments start, whatever its size. -/
theorem header_length (id : Int) (s : CachedSink) {start : Nat}
    (hstart : start = if decide (s.id > 255) || decide (id > 255) then 0
      else argsOffset - kAooBinMsgHeaderSize) :
    start + (binmsgWriteHeader (argsOffset - start) .sink kAooBinMsgCmdData s.id id).length =
      argsOffset := by
  unfold argsOffset kAooBinMsgLargeHeaderSize kAooBinMsgHeaderSize at *
  by_cases hlarge : s.id ≥ 256 ∨ id ≥ 256
  · have h₀ : start = 0 := by
      rw [hstart, if_pos]
      simp only [Bool.or_eq_true, decide_eq_true_eq]
      omega
    rw [h₀, binmsgWriteHeader, if_pos hlarge]
    simp
  · have h₀ : start = 8 := by
      rw [hstart, if_neg]
      simp only [Bool.or_eq_true, decide_eq_true_eq]
      omega
    rw [h₀, binmsgWriteHeader, if_neg hlarge]
    rfl

/-- It gets the room that it needs. -/
theorem header_room (id : Int) (s : CachedSink) {start : Nat}
    (hstart : start = if decide (s.id > 255) || decide (id > 255) then 0
      else argsOffset - kAooBinMsgHeaderSize) :
    binmsgWriteHeader (argsOffset - start) .sink kAooBinMsgCmdData s.id id =
      binmsgWriteHeader AOO_MAX_PACKET_SIZE .sink kAooBinMsgCmdData s.id id := by
  rw [← binmsgWriteHeader_of_large (show 12 ≤ AOO_MAX_PACKET_SIZE by decide), hstart]
  split <;> rfl

/-- The header overwrites the end of the space in front of the arguments. -/
theorem writeAt_front {front header : List UInt8} {start : Nat} (c : List UInt8)
    (hlen : start + header.length = front.length) :
    writeAt (front ++ c) start header = (front.take start ++ header) ++ c := by
  rw [writeAt_append_left (by omega), writeAt, hlen, List.drop_length, List.append_nil]

/-- Patching the buffer is patching the arguments in it. -/
theorem patchBuffer_eq {front args : List UInt8} (rest : List UInt8)
    (hfront : front.length = argsOffset) (hargs : 12 ≤ args.length)
    (hheader : ∀ n, findLowLatencyHeader d = some n → n + 20 ≤ args.length) :
    patchBuffer (front ++ (args ++ rest)) d s = front ++ (patchArgs args d s ++ rest) := by
  have hid : (int32Bytes s.streamId).length = 4 := int32Bytes_length _
  have hfirst : writeAt (front ++ (args ++ rest)) argsOffset (int32Bytes s.streamId) =
      front ++ (writeAt args 0 (int32Bytes s.streamId) ++ rest) := by
    rw [← hfront, ← writeAt_append_left (by omega)]
    exact writeAt_append_right front (args ++ rest) 0 _
  have hlen : (writeAt args 0 (int32Bytes s.streamId)).length = args.length :=
    writeAt_length (by omega)
  have hlen' : (writeAt (writeAt args 0 (int32Bytes s.streamId)) 8 [toByte s.channel]).length =
      args.length :=
    (writeAt_length (by rw [hlen, List.length_singleton]; omega)).trans hlen
  simp only [patchBuffer, patchArgs]
  rw [hfirst, ← hfront, writeAt_append_right, writeAt_append_left]
  · cases hn : findLowLatencyHeader d with
    | none => rfl
    | some n =>
      have := hheader n hn
      simp only []
      rw [writeAt_append_right, writeAt_append_left]
      rw [hlen', toBytes_length]
      omega
  · rw [hlen, List.length_singleton]
    omega

/-- What is sent between the start of the header and the end of the arguments. -/
theorem sent_eq {front header args : List UInt8} {start argsize : Nat} (rest : List UInt8)
    (hlen : start + header.length = argsOffset) (hfront : front.length = argsOffset)
    (hargs : argsize ≤ args.length) :
    (((front.take start ++ header) ++ (args ++ rest)).take (argsOffset + argsize)).drop start =
      header ++ args.take argsize := by
  have hstart : (front.take start).length = start := by
    rw [List.length_take]
    omega
  have hfull : (front.take start ++ header).length = argsOffset := by
    rw [List.length_append, hstart, hlen]
  rw [← hfull, List.take_length_add_append, List.take_append_of_le_length hargs,
    List.append_assoc, List.drop_left' hstart]

/-- The loop over the shared buffer sends what `sendPatched` says. -/
theorem sendShared_eq (id : Int) (rest : List UInt8) (sinks : List CachedSink) :
    ∀ (channel streamId : Int) (front : List UInt8), front.length = argsOffset →
      sendShared id d d.binSize (front ++
        ((({ d with channel := channel } : DataPacket).head streamId ++ d.tail streamId) ++ rest))
        sinks =
      sendPatched id d d.binSize
        (({ d with channel := channel } : DataPacket).head streamId ++ d.tail streamId) sinks := by
  induction sinks with
  | nil =>
    intro channel streamId front _
    rfl
  | cons s sinks ih =>
    intro channel streamId front hfront
    have hargs : ∀ c sid, (({ d with channel := c } : DataPacket).head sid ++
        d.tail sid).length = d.binSize :=
      fun c sid => ({ d with channel := c } : DataPacket).head_tail_length sid
    have hsize : 12 ≤ d.binSize := by
      unfold DataPacket.binSize
      omega
    have hheader : ∀ n, findLowLatencyHeader d = some n → n + 20 ≤ d.binSize := by
      intro n hn
      have hll : hasBit d.flags kAooBinMsgDataLowLatency = true := by
        by_contra hnot
        rw [findLowLatencyHeader, if_neg hnot] at hn
        cases hn
      rw [findLowLatencyHeader_eq hll 0] at hn
      have := d.head_length 0
      have := Option.some.inj hn
      unfold DataPacket.binSize
      rw [if_pos hll]
      omega
    rw [sendShared, sendPatched]
    generalize hstart : (if decide (s.id > 255) || decide (id > 255) then 0
      else argsOffset - kAooBinMsgHeaderSize) = start
    have hlen := header_length id s hstart.symm
    have hroom := header_room id s hstart.symm
    have hfront' : (front.take start ++
        binmsgWriteHeader (argsOffset - start) .sink kAooBinMsgCmdData s.id id).length =
          argsOffset := by
      rw [List.length_append, List.length_take]
      omega
    rw [writeAt_front _ (hlen.trans hfront.symm), patchBuffer_eq rest hfront'
      (by rw [hargs]; exact hsize) (fun n hn => by rw [hargs]; exact hheader n hn), patchArgs_eq]
    rw [sent_eq rest hlen hfront (Nat.le_of_eq (hargs _ _).symm), ih _ _ _ hfront', hroom,
      binmsgWriteHeader_of_large (show 12 ≤ AOO_MAX_PACKET_SIZE by decide)]

/-- Patching does not touch what stands in front of the arguments. -/
theorem patchBuffer_front {front : List UInt8} (hfront : front.length = argsOffset)
    (c : List UInt8) : ∃ c', patchBuffer (front ++ c) d s = front ++ c' := by
  have hfirst : writeAt (front ++ c) argsOffset (int32Bytes s.streamId) =
      front ++ writeAt c 0 (int32Bytes s.streamId) := by
    rw [← hfront]
    exact writeAt_append_right front c 0 _
  simp only [patchBuffer]
  rw [hfirst, ← hfront, writeAt_append_right]
  split
  · exact ⟨_, writeAt_append_right _ _ _ _⟩
  · exact ⟨_, rfl⟩

/-- Without arguments only the headers are sent. -/
theorem sendShared_zero (id : Int) (sinks : List CachedSink) :
    ∀ front c : List UInt8, front.length = argsOffset →
      sendShared id d 0 (front ++ c) sinks = sinks.map fun s =>
        .bin (binmsgWriteHeader AOO_MAX_PACKET_SIZE .sink kAooBinMsgCmdData s.id id) := by
  induction sinks with
  | nil =>
    intro front c _
    rfl
  | cons s sinks ih =>
    intro front c hfront
    rw [sendShared]
    generalize hstart : (if decide (s.id > 255) || decide (id > 255) then 0
      else argsOffset - kAooBinMsgHeaderSize) = start
    have hlen := header_length id s hstart.symm
    have hfront' : (front.take start ++
        binmsgWriteHeader (argsOffset - start) .sink kAooBinMsgCmdData s.id id).length =
          argsOffset := by
      rw [List.length_append, List.length_take]
      omega
    have hroom := header_room id s hstart.symm
    rw [writeAt_front _ (hlen.trans hfront.symm)]
    obtain ⟨c', hc'⟩ := @patchBuffer_front d s _ hfront' c
    have hsent := @sent_eq _ _ [] _ 0 c' hlen hfront (Nat.le_refl 0)
    simp only [List.take_nil, List.append_nil, List.nil_append] at hsent
    rw [hc', hsent, ih _ c' hfront', List.map_cons, hroom]

/-! ## The datagram of one sink -/

/-- What `send_packet_bin` builds. -/
theorem sendPacketBin_of_fits (hfit : argsOffset + d.binSize ≤ AOO_MAX_PACKET_SIZE) (id : Int)
    (s : CachedSink) :
    sendPacketBin s id { d with channel := s.channel } =
      some (.bin (binmsgWriteHeader AOO_MAX_PACKET_SIZE .sink kAooBinMsgCmdData s.id id ++
        if d.refused then []
        else ({ d with channel := s.channel } : DataPacket).head s.streamId ++
          d.tail s.streamId)) := by
  have hlen := @binmsgWriteHeader_length AOO_MAX_PACKET_SIZE (by decide) .sink kAooBinMsgCmdData
    s.id id
  have hhead : headerSize s.id id ≤ argsOffset := by
    unfold headerSize argsOffset kAooBinMsgLargeHeaderSize
    split <;> omega
  rw [sendPacketBin]
  by_cases hd : d.refused
  · rw [writeBinData_of_refused _ _ _ hd, if_pos hd, if_pos]
    rw [hlen, List.length_nil]
    omega
  · have hargs := ({ d with channel := s.channel } : DataPacket).head_tail_length s.streamId
    rw [hlen, writeBinData_of_not_refused _ _ _ hd, if_neg hd, if_pos]
    · exact Nat.le_trans (Nat.add_le_add hhead (Nat.le_of_eq hargs)) hfit
    · unfold argsOffset kAooBinMsgLargeHeaderSize AOO_MAX_PACKET_SIZE at *
      omega

/-! ## The whole call -/

/-- If the low-latency header is refused, its packet is in the buffer up to there, but only
the message headers are sent. -/
theorem sendPacketShared_of_refused {buf : List UInt8} (hbuf : buf.length = AOO_MAX_PACKET_SIZE)
    (sinks : List CachedSink) (id : Int) (hd : d.refused) :
    sendPacketShared buf sinks id d = sinks.map fun s =>
      .bin (binmsgWriteHeader AOO_MAX_PACKET_SIZE .sink kAooBinMsgCmdData s.id id) := by
  have htake : (buf.take argsOffset).length = argsOffset := by
    rw [List.length_take, hbuf]
    rfl
  have hencode := encode_header_refused
    (buf.length - argsOffset - (d.head kAooIdInvalid).length) d.channel kAooIdInvalid hd
  have hwrite : writeBinDataAt buf argsOffset kAooIdInvalid d =
      (writeAt buf argsOffset (d.head kAooIdInvalid), 0) := by
    simp only [writeBinDataAt, if_pos hd.1]
    rw [hencode]
  rw [sendPacketShared, hwrite, writeAt, List.append_assoc]
  exact sendShared_zero id sinks _ _ htake

/-- Otherwise the arguments are sent behind them. -/
theorem sendPacketShared_of_not_refused {buf : List UInt8}
    (hbuf : buf.length = AOO_MAX_PACKET_SIZE)
    (hfit : kAooBinMsgLargeHeaderSize + d.binSize ≤ AOO_MAX_PACKET_SIZE)
    (sinks : List CachedSink) (id : Int) (hd : ¬ d.refused) :
    sendPacketShared buf sinks id d =
      sendPatched id d d.binSize (d.head kAooIdInvalid ++ d.tail kAooIdInvalid) sinks := by
  have hsize : AOO_MAX_PACKET_SIZE = 4096 := rfl
  have hlarge : argsOffset = kAooBinMsgLargeHeaderSize := rfl
  have hoffset : argsOffset = 12 := rfl
  have htake : (buf.take argsOffset).length = argsOffset := by
    rw [List.length_take, hbuf]
    rfl
  rw [sendPacketShared, writeBinDataAt_eq kAooIdInvalid hd (by omega) (by omega), writeAt,
    List.append_assoc]
  exact sendShared_eq id _ sinks d.channel kAooIdInvalid _ htake

/-- **The shared buffer sends what `send_packet_bin` would send**: for every packet that fits,
every source id, all sinks in any order and whatever the buffer has held before. -/
theorem sendPacketShared_eq :
    ∀ (d : DataPacket) (id : Int) (sinks : List CachedSink) (buf : List UInt8),
      buf.length = AOO_MAX_PACKET_SIZE →
      kAooBinMsgLargeHeaderSize + d.binSize ≤ AOO_MAX_PACKET_SIZE →
        (sendPacketShared buf sinks id d).map some =
          sinks.map fun s => sendPacketBin s id { d with channel := s.channel } := by
  intro d id sinks buf hbuf hfit
  by_cases hd : d.refused
  · rw [sendPacketShared_of_refused hbuf sinks id hd, List.map_map]
    refine List.map_congr_left fun s _ => ?_
    rw [sendPacketBin_of_fits hfit id s, if_pos hd, List.append_nil]
    rfl
  · rw [sendPacketShared_of_not_refused hbuf hfit sinks id hd]
    refine List.ext_getElem? fun i => ?_
    rw [List.getElem?_map, List.getElem?_map,
      sendPatched_getElem? d id sinks d.channel kAooIdInvalid i, Option.map_map]
    refine congrArg (Option.map · sinks[i]?) (funext fun s => ?_)
    rw [sendPacketBin_of_fits hfit id s, if_neg hd]
    rfl

/-- A low-latency frame of two, with stream messages and a time tag. -/
def sharedPacket : DataPacket where
  sequence := 7
  channel := 0
  tt := 9
  samplerate := 0
  totalSize := 6
  msgSize := 4
  numFrames := 2
  frameIndex := 1
  data := [1, 2, 3]
  flags := 54
  protocolVersion := AOO_LOW_LATENCY_PROTOCOL_VERSION
  transportProfile := 1
  pcmFormat := 1
  absoluteSamplePosition := 480
  sourceTimestamp := 5
  blockFrames := 48
  channelCount := 2

/-- A small id between two large ones. -/
theorem sendPacketShared_mixed :
    (sendPacketShared (List.replicate AOO_MAX_PACKET_SIZE 0xAA)
        [⟨300, 70000, 3⟩, ⟨5, 6, 255⟩, ⟨70000, 1, 0⟩] 4 sharedPacket).map some =
      [sendPacketBin ⟨300, 70000, 3⟩ 4 { sharedPacket with channel := 3 },
        sendPacketBin ⟨5, 6, 255⟩ 4 { sharedPacket with channel := 255 },
        sendPacketBin ⟨70000, 1, 0⟩ 4 { sharedPacket with channel := 0 }] :=
  sendPacketShared_eq sharedPacket 4 [⟨300, 70000, 3⟩, ⟨5, 6, 255⟩, ⟨70000, 1, 0⟩]
    (List.replicate AOO_MAX_PACKET_SIZE 0xAA) List.length_replicate (by decide)

/-! ## The packets of a source -/

/-- The payload that `send_data` and `send_xruns` allow leaves room for everything else. -/
theorem fits_of_room (h : kBinDataHeaderSize + d.data.length ≤ AOO_MAX_PACKET_SIZE) :
    kAooBinMsgLargeHeaderSize + d.binSize ≤ AOO_MAX_PACKET_SIZE := by
  have hsize := d.binSize_le
  have hheader : kBinDataHeaderSize = 104 := rfl
  have hlarge : kAooBinMsgLargeHeaderSize = 12 := rfl
  omega

/-- For what a source sends, the shared buffer refines `sendPacket`, on which the runs of a
source are built. -/
theorem sendPacketShared_refines {buf : List UInt8} (hbuf : buf.length = AOO_MAX_PACKET_SIZE)
    (hroom : kBinDataHeaderSize + d.data.length ≤ AOO_MAX_PACKET_SIZE) (hd : ¬ d.refused)
    (sinks : List CachedSink) (id : Int) :
    sendPacketShared buf sinks id d = sendPacket sinks id d true := by
  have hfit := fits_of_room hroom
  have hargs := writeBinData_of_not_refused
    (show 92 ≤ AOO_MAX_PACKET_SIZE - kAooBinMsgLargeHeaderSize by decide) d.channel
    kAooIdInvalid hd
  have hlen := d.head_tail_length kAooIdInvalid
  rw [sendPacketShared_of_not_refused hbuf hfit sinks id hd, sendPacket, if_pos rfl]
  simp only [hargs, hlen]
  rw [if_pos hfit]

end Aoo.Stream
