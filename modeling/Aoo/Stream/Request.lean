import Aoo.Stream.Framing
import Aoo.Stream.Missing

/-!
# Requests for missing frames

The way of a request: `check_missing_blocks` puts it in a queue, and
`send_data_requests` packs the queue into messages, in one of two formats. The
source takes them apart again (`handle_data_request`) and selects the frames of
its block (`DataRequest.frames`).
-/

namespace Aoo.Stream

open Lib

/-! ## The sink -/

namespace Sink

/-- `kDataHeaderSize` of `sink.cpp`: the room kept for the head of an OSC message. -/
def kDataHeaderSize : Nat := 37

/-- `kBinDataHeaderSize` of `sink.cpp` -/
def kBinDataHeaderSize : Nat := kAooBinMsgLargeHeaderSize + 8 + AOO_LOW_LATENCY_PACKET_HEADER_SIZE

/-- The packet sizes that `Sink::control` accepts. -/
@[ext] structure PacketSize where
  val : Nat
  ge : kDataHeaderSize + 64 ≤ val
  le : val ≤ AOO_MAX_PACKET_SIZE
  deriving Repr

instance : DecidableEq PacketSize := fun _ _ => decidable_of_iff' _ PacketSize.ext_iff

/-- `kAooCtlSetPacketSize` -/
def PacketSize.control (packetsize : Int) : PacketSize :=
  if h : packetsize < kDataHeaderSize + 64 then ⟨kDataHeaderSize + 64, by decide, by decide⟩
  else if h' : packetsize > AOO_MAX_PACKET_SIZE then
    ⟨AOO_MAX_PACKET_SIZE, by decide, Nat.le_refl _⟩
  else ⟨packetsize.toNat, by omega, by omega⟩

end Sink

/-- What `send_data_requests` reads: the id of the sink, id and format of the
source, the stream and the packet size. -/
@[ext] structure Requester where
  id : Int
  sourceId : Int
  streamId : Int
  binary : Bool
  packetSize : Sink.PacketSize
  id_range : 0 ≤ id ∧ id < 2147483648
  source_range : 0 ≤ sourceId ∧ sourceId < 2147483648
  stream_range : -2147483648 ≤ streamId ∧ streamId < 2147483648
  deriving Repr

instance : DecidableEq Requester := fun _ _ => decidable_of_iff' _ Requester.ext_iff

/-- A request in a binary message. -/
def DataRequest.bytes (r : DataRequest) : List UInt8 :=
  int32Bytes r.sequence ++ (int16Bytes r.offset ++ toBytes 2 r.bitset)

/-- The frames that the bits of a request stand for. -/
def DataRequest.bits (r : DataRequest) : List Int :=
  ((List.range 16).filter fun i => r.bitset.testBit i).map fun i : Nat => r.offset + (i : Int)

/-- A request in an OSC message: pairs of sequence and frame, or -1 for the whole
block. -/
def DataRequest.pairs (r : DataRequest) : List (Int × Int) :=
  if r.offset < 0 then [(r.sequence, -1)] else r.bits.map fun frame => (r.sequence, frame)

namespace Requester

/-- `maxrequests` -/
def maxrequests (c : Requester) : Nat :=
  if c.binary then (c.packetSize.val - Sink.kBinDataHeaderSize) / 8
  else (c.packetSize.val - Sink.kDataHeaderSize) / 10

def binMessage (c : Requester) (rs : List DataRequest) : List UInt8 :=
  binmsgWriteHeader AOO_MAX_PACKET_SIZE .source kAooBinMsgCmdData c.sourceId c.id ++
    (int32Bytes c.streamId ++ (int32Bytes rs.length ++ rs.flatMap (·.bytes)))

def oscMessage (c : Requester) (ps : List (Int × Int)) : OscMessage :=
  ⟨.sourceData c.sourceId, .int32 c.id :: .int32 c.streamId ::
    ps.flatMap fun p => [.int32 p.1, .int32 p.2]⟩

/-- `source_desc::send_data_requests`: the messages for the queue. -/
def sendDataRequests (c : Requester) (queue : List DataRequest) : List Datagram :=
  if c.binary then (batches c.maxrequests queue []).map fun rs => .bin (c.binMessage rs)
  else (batches c.maxrequests (queue.flatMap (·.pairs)) []).map fun ps => .osc (c.oscMessage ps)

end Requester

/-! ## The source -/

/-- The loop over the requests of a binary message. -/
def readRequests : Nat → List UInt8 → List DataRequest
  | 0, _ => []
  | n + 1, bs =>
    ⟨int32Field bs, signed 65536 (field 2 (bs.drop 4)), field 2 (bs.drop 6)⟩ ::
      readRequests n (bs.drop 8)

/-- The stream id and the requests of a binary message. The size check is
unsigned, so a negative count is too large. -/
def parseRequestsBin (bs : List UInt8) : Option (Int × List DataRequest) :=
  if bs.length < 8 then none
  else
    let count := int32Field (bs.drop 4)
    if count < 0 ∨ ((bs.drop 8).length : Int) < count * 8 then none
    else some (int32Field bs, readRequests count.toNat (bs.drop 8))

/-- The loop over the pairs of an OSC message, up to an argument that is no
`int32`, where `oscpack` throws. The frame goes to an `int16_t`; only the first
bit is set, and none for a whole block. -/
def readPairs : Nat → List OscArg → List DataRequest
  | n + 1, .int32 sequence :: .int32 frame :: args =>
    ⟨sequence, toInt16 frame, if toInt16 frame ≥ 0 then 1 else 0⟩ :: readPairs n args
  | _, _ => []

/-- The ids of source and sink, the stream and the requests of a message
(`Source::handle_message`). -/
def parseRequest : Datagram → Option (Int × Int × Int × List DataRequest)
  | .bin data =>
    if binmsgCheck data && decide (0 < binmsgHeadersize data) &&
        binmsgType data == AooMsgType.source.toNat && binmsgCmd data == kAooBinMsgCmdData then
      (parseRequestsBin (data.drop (binmsgHeadersize data))).map fun (streamId, rs) =>
        (binmsgTo data, binmsgFrom data, streamId, rs)
    else none
  | .osc msg =>
    match msg.address, msg.args with
    | .sourceData sourceId, .int32 id :: .int32 streamId :: args =>
      some (sourceId, id, streamId, readPairs (args.length / 2) args)
    | _, _ => none

/-- `Source::handle_data_request`, seen from a sink of the source: it takes the
requests of messages with its id. -/
def SinkDesc.handleDataRequest (sink : SinkDesc) (sourceId resendBufferSize : Int) (m : Datagram) :
    SinkDesc :=
  match parseRequest m with
  | none => sink
  | some (toId, fromId, streamId, rs) =>
    if toId = sourceId ∧ fromId = sink.id ∧ resendBufferSize > 0 ∧ streamId = sink.streamId ∧
        sink.isActive then
      { sink with dataRequests := sink.dataRequests ++ rs }
    else sink

/-- The frames that `resend_data` selects for the requests; `numFrames` is the
number of frames of a block. -/
def selectFrames (numFrames : Int → Nat) (rs : List DataRequest) : List (Int × Int) :=
  rs.flatMap fun r => (r.frames (numFrames r.sequence)).map fun frame => (r.sequence, frame)

/-! ## Messages read back -/

/-- The fields fit the types of the source. -/
structure DataRequest.Wire (r : DataRequest) : Prop where
  sequence : -2147483648 ≤ r.sequence ∧ r.sequence < 2147483648
  offset : -32768 ≤ r.offset ∧ r.offset ≤ 32752
  bitset : r.bitset < 65536

/-- What the source makes of a pair. -/
def pairRequest (p : Int × Int) : DataRequest :=
  ⟨p.1, toInt16 p.2, if toInt16 p.2 ≥ 0 then 1 else 0⟩

@[simp] theorem pairRequest_sequence (p : Int × Int) : (pairRequest p).sequence = p.1 := by
  unfold pairRequest
  generalize toInt16 p.2 = offset
  rfl

theorem DataRequest.bytes_length (r : DataRequest) : r.bytes.length = 8 := by
  simp [DataRequest.bytes]

/-- A request reads back. -/
theorem readRequests_cons {r : DataRequest} (h : r.Wire) (n : Nat) (rest : List UInt8) :
    readRequests (n + 1) (r.bytes ++ rest) = r :: readRequests n rest := by
  have hoff : signed 65536 (field 2 (int16Bytes r.offset ++ (toBytes 2 r.bitset ++ rest))) =
      r.offset := by
    have hlt := unsigned_lt (m := 65536) (by decide) r.offset
    rw [int16Bytes, field_append, show 256 ^ 2 = 65536 by decide, Nat.mod_eq_of_lt hlt]
    have := h.offset
    exact signed_unsigned (by decide) (by push_cast; omega) (by push_cast; omega)
  have hbits : field 2 (toBytes 2 r.bitset ++ rest) = r.bitset := by
    rw [field_append, show 256 ^ 2 = 65536 by decide, Nat.mod_eq_of_lt h.bitset]
  have h4 : (r.bytes ++ rest).drop 4 = int16Bytes r.offset ++ (toBytes 2 r.bitset ++ rest) := by
    rw [DataRequest.bytes, List.append_assoc, List.append_assoc]
    exact drop_int32Bytes_append ..
  have h6 : (r.bytes ++ rest).drop 6 = toBytes 2 r.bitset ++ rest := by
    rw [show 6 = 4 + 2 by decide, ← List.drop_drop, h4]
    exact drop_toBytes_append ..
  have h8 : (r.bytes ++ rest).drop 8 = rest := List.drop_left' r.bytes_length
  rw [readRequests, h4, h6, h8, hoff, hbits, DataRequest.bytes, List.append_assoc,
    int32Field_append h.sequence.1 h.sequence.2]

theorem readRequests_bytes {rs : List DataRequest} (h : ∀ r ∈ rs, r.Wire) :
    readRequests rs.length (rs.flatMap (·.bytes)) = rs := by
  induction rs with
  | nil => rfl
  | cons r rs ih =>
    rw [List.length_cons, List.flatMap_cons, readRequests_cons (h r (List.mem_cons_self ..)),
      ih fun r hr => h r (List.mem_cons_of_mem _ hr)]

theorem flatMap_bytes_length (rs : List DataRequest) :
    (rs.flatMap (·.bytes)).length = 8 * rs.length := by
  induction rs with
  | nil => rfl
  | cons r rs ih =>
    rw [List.flatMap_cons, List.length_append, r.bytes_length, ih, List.length_cons]
    omega

/-- A binary message reads back. -/
theorem Requester.parse_binMessage (c : Requester) {rs : List DataRequest} (h : ∀ r ∈ rs, r.Wire)
    (hlen : rs.length < 2147483648) :
    parseRequest (.bin (c.binMessage rs)) = some (c.sourceId, c.id, c.streamId, rs) := by
  obtain ⟨body, hbody⟩ : ∃ body, body =
    int32Bytes c.streamId ++ (int32Bytes rs.length ++ rs.flatMap (·.bytes)) := ⟨_, rfl⟩
  obtain ⟨hcheck, htype, hcmd, hpos, hdrop⟩ := @binmsgWriteHeader_append AOO_MAX_PACKET_SIZE
    (by decide) .source kAooBinMsgCmdData (by decide) c.sourceId c.id body
  obtain ⟨hto, hfrom⟩ := @binmsgWriteHeader_ids AOO_MAX_PACKET_SIZE (by decide) .source
    kAooBinMsgCmdData (by decide) c.sourceId c.id c.source_range c.id_range body
  have hparse : parseRequestsBin body = some (c.streamId, rs) := by
    have h4 : body.drop 4 = int32Bytes rs.length ++ rs.flatMap (·.bytes) := by
      rw [hbody]
      exact drop_int32Bytes_append ..
    have h8 : body.drop 8 = rs.flatMap (·.bytes) := by
      rw [show 8 = 4 + 4 by decide, ← List.drop_drop, h4]
      exact drop_int32Bytes_append ..
    have hbig : ¬ body.length < 8 := by
      rw [hbody]
      simp only [List.length_append, int32Bytes_length]
      omega
    unfold parseRequestsBin
    rw [if_neg hbig, h4, h8, int32Field_append (by omega) (by omega)]
    simp only
    rw [flatMap_bytes_length, if_neg (by omega), Int.toNat_natCast, readRequests_bytes h, hbody,
      int32Field_append c.stream_range.1 c.stream_range.2]
  unfold parseRequest Requester.binMessage
  rw [← hbody]
  simp only [hcheck, hpos, htype, hcmd, hdrop, hparse, hto, hfrom]
  simp

theorem readPairs_args (ps : List (Int × Int)) :
    readPairs ps.length (ps.flatMap fun p => [OscArg.int32 p.1, .int32 p.2]) =
      ps.map pairRequest := by
  induction ps with
  | nil => rfl
  | cons p ps ih =>
    rw [List.length_cons, List.flatMap_cons, List.cons_append, List.cons_append, List.nil_append,
      readPairs, ih]
    rfl

theorem flatMap_args_length (ps : List (Int × Int)) :
    (ps.flatMap fun p => [OscArg.int32 p.1, .int32 p.2]).length = 2 * ps.length := by
  induction ps with
  | nil => rfl
  | cons p ps ih =>
    rw [List.flatMap_cons, List.length_append, ih]
    simp only [List.length_cons, List.length_nil]
    omega

/-- An OSC message reads back, pair by pair. -/
theorem Requester.parse_oscMessage (c : Requester) (ps : List (Int × Int)) :
    parseRequest (.osc (c.oscMessage ps)) =
      some (c.sourceId, c.id, c.streamId, ps.map pairRequest) := by
  show some (_, _, _, readPairs _ _) = _
  rw [flatMap_args_length, Nat.mul_div_cancel_left _ (by decide), readPairs_args]

/-- The source answers: it keeps blocks, and the sink with this id is active and
has this stream. -/
structure Requester.Answered (c : Requester) (sink : SinkDesc) (resendBufferSize : Int) : Prop where
  sinkId : sink.id = c.id
  stream : sink.streamId = c.streamId
  active : sink.isActive = true
  resend : resendBufferSize > 0

/-- The requests of messages that read back come to the queue one behind the
other. -/
theorem Requester.Answered.handle {c : Requester} {sink : SinkDesc} {resendBufferSize : Int}
    (h : c.Answered sink resendBufferSize) {α : Type} {encode : α → Datagram}
    {decode : α → List DataRequest} {l : List α}
    (hl : ∀ x ∈ l, parseRequest (encode x) = some (c.sourceId, c.id, c.streamId, decode x)) :
    ((l.map encode).foldl (fun s m => s.handleDataRequest c.sourceId resendBufferSize m)
      sink).dataRequests = sink.dataRequests ++ l.flatMap decode := by
  induction l generalizing sink with
  | nil => simp
  | cons x l ih =>
    have hstep : sink.handleDataRequest c.sourceId resendBufferSize (encode x) =
        { sink with dataRequests := sink.dataRequests ++ decode x } := by
      unfold SinkDesc.handleDataRequest
      rw [hl x (List.mem_cons_self ..)]
      exact if_pos ⟨rfl, h.sinkId.symm, h.resend, h.stream.symm, h.active⟩
    rw [List.map_cons, List.foldl_cons, hstep, List.flatMap_cons, ← List.append_assoc]
    exact @ih { sink with dataRequests := sink.dataRequests ++ decode x }
      ⟨h.sinkId, h.stream, h.active, h.resend⟩ fun y hy => hl y (List.mem_cons_of_mem _ hy)

/-! ## Frames read back -/

theorem selectFrames_append (numFrames : Int → Nat) (rs rs' : List DataRequest) :
    selectFrames numFrames (rs ++ rs') = selectFrames numFrames rs ++ selectFrames numFrames rs' :=
  List.flatMap_append

/-- The bits of a request are its frames, as far as the block has them. -/
theorem DataRequest.frames_of_nonneg {r : DataRequest} (h : 0 ≤ r.offset) (n : Int) :
    r.frames n = r.bits.filter fun index => decide (index < n) := by
  rw [DataRequest.frames, if_neg (by omega)]
  rfl

theorem DataRequest.mem_bits {r : DataRequest} {frame : Int} (h : frame ∈ r.bits) :
    r.offset ≤ frame ∧ frame < r.offset + 16 := by
  obtain ⟨i, hi, rfl⟩ := List.mem_map.mp h
  have := List.mem_range.mp (List.mem_filter.mp hi).1
  omega

/-- The pair of a frame stands for that frame. -/
theorem pairRequest_frames {seq frame : Int} (h : 0 ≤ frame ∧ frame ≤ 32767) (n : Int) :
    (pairRequest (seq, frame)).frames n = [frame].filter fun index => decide (index < n) := by
  have h16 : toInt16 frame = frame := toInt16_of_range (by omega) (by omega)
  have hbits : (⟨seq, frame, 1⟩ : DataRequest).bits = [frame] := by
    have hone : ((List.range 16).filter fun i => Nat.testBit 1 i) = [0] := by decide
    rw [DataRequest.bits, hone, List.map_singleton, Nat.cast_zero, Int.add_zero]
  have hreq : pairRequest (seq, frame) = ⟨seq, frame, 1⟩ := by
    rw [pairRequest, h16, if_pos h.1]
  rw [hreq, DataRequest.frames_of_nonneg h.1, hbits]

/-- **The pairs of a request ask for the same frames** as the request. -/
theorem DataRequest.Wire.select_pairs {r : DataRequest} (h : r.Wire) (numFrames : Int → Nat) :
    selectFrames numFrames (r.pairs.map pairRequest) = selectFrames numFrames [r] := by
  have hoff := h.offset
  unfold selectFrames
  rw [List.flatMap_map, List.flatMap_singleton]
  unfold DataRequest.pairs
  split
  next hneg =>
    have h16 : toInt16 (-1) = -1 := toInt16_of_range (by decide) (by decide)
    have hreq : pairRequest (r.sequence, -1) = ⟨r.sequence, -1, 0⟩ := by
      rw [pairRequest, h16, if_neg (by decide)]
    rw [List.flatMap_singleton, hreq, DataRequest.frames, DataRequest.frames, if_pos hneg,
      if_pos (show (-1 : Int) < 0 by decide)]
  next hnonneg =>
    have hframe : ∀ frame ∈ r.bits,
        ((pairRequest (r.sequence, frame)).frames
          (numFrames (pairRequest (r.sequence, frame)).sequence)).map
            (fun j => ((pairRequest (r.sequence, frame)).sequence, j)) =
        ([frame].filter fun index => decide (index < (numFrames r.sequence : Int))).map
          fun j => (r.sequence, j) := by
      intro frame hf
      have := mem_bits hf
      rw [pairRequest_sequence, pairRequest_frames ⟨by omega, by omega⟩]
    rw [List.flatMap_map, List.flatMap_congr hframe, frames_of_nonneg (by omega),
      ← List.map_flatMap]
    congr 1
    rw [← List.filter_flatMap, List.flatMap_singleton']

end Aoo.Stream
