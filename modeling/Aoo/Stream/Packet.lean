import Aoo.LowLatency
import Aoo.Lib.Buffer

/-!
# Stream data packets

`data_packet` with its two encodings (`write_bin_data`, `send_packet_osc`) and
the two parsers of the sink (`Sink::handle_data_message`).

A packet is one frame of a block. The binary form has a fixed part of 12 bytes
and five optional sections, each announced by a flag; the OSC form has `nil` for
what is absent.
-/

namespace Aoo.Stream

open Lib

def kAooBinMsgCmdData : Nat := 0

def kAooBinMsgDataSampleRate : Nat := 1
def kAooBinMsgDataFrames : Nat := 2
def kAooBinMsgDataStreamMessage : Nat := 4
def kAooBinMsgDataXRun : Nat := 8
def kAooBinMsgDataTimeStamp : Nat := 16
def kAooBinMsgDataLowLatency : Nat := 32

/-- `data_packet`. The sample rate is the bit pattern of a `double`, `data` has
the `size` bytes that the pointer `data` points at. -/
structure DataPacket where
  sequence : Int
  channel : Int
  tt : Nat
  samplerate : Nat
  totalSize : Int
  msgSize : Int
  numFrames : Int
  frameIndex : Int
  data : List UInt8
  flags : Nat
  protocolVersion : UInt16 := 0
  transportProfile : UInt8 := 0
  pcmFormat : UInt8 := 0
  absoluteSamplePosition : UInt64 := 0
  sourceTimestamp : UInt64 := 0
  blockFrames : UInt16 := 0
  channelCount : UInt16 := 0
  deriving DecidableEq, Repr

/-- `net_packet`: a packet as the sink receives it. -/
structure NetPacket extends DataPacket where
  streamId : Int
  deriving DecidableEq, Repr

/-- The value of an integer after conversion to `int16_t`. -/
@[irreducible] def toInt16 (v : Int) : Int := signed 65536 (unsigned 65536 v)

theorem toInt16_of_range {v : Int} (h0 : -32768 ≤ v) (h1 : v < 32768) : toInt16 v = v := by
  unfold toInt16
  exact signed_unsigned (by decide) (by push_cast; omega) (by push_cast; omega)

theorem toInt16_le (v : Int) : toInt16 v ≤ 32767 := by
  unfold toInt16 signed
  have := @Int.bmod_lt (unsigned 65536 v : Nat) 65536 (by decide)
  omega

/-- `samplerate == 0` for the bit pattern of a `double`: either zero. -/
def isZero (samplerate : Nat) : Bool := samplerate % 9223372036854775808 == 0

/-! ## The binary encoding -/

/-- The low-latency header that `write_bin_data` fills in. -/
def DataPacket.header (d : DataPacket) (streamId : Int) : AooLowLatencyPacketHeader where
  protocolVersion := d.protocolVersion
  headerSize := UInt16.ofNat AOO_LOW_LATENCY_PACKET_HEADER_SIZE
  profile := d.transportProfile
  pcmFormat := d.pcmFormat
  flags := 0
  streamId := UInt64.ofNat (unsigned 4294967296 streamId)
  sequence := UInt32.ofNat (unsigned 4294967296 d.sequence)
  absoluteSamplePosition := d.absoluteSamplePosition
  sourceTimestamp := d.sourceTimestamp
  blockFrames := d.blockFrames
  fragmentIndex := UInt16.ofNat (unsigned 65536 d.frameIndex)
  fragmentCount := UInt16.ofNat (unsigned 65536 d.numFrames)
  channelCount := d.channelCount
  payloadBytes := UInt32.ofNat d.data.length

/-- The section with the frames: total size, frame count, frame index. -/
def DataPacket.framesSection (d : DataPacket) : List UInt8 :=
  int32Bytes d.totalSize ++ (int16Bytes d.numFrames ++ int16Bytes d.frameIndex)

/-- The optional sections in front of the low-latency header. -/
def DataPacket.sections (d : DataPacket) : List UInt8 :=
  (if hasBit d.flags kAooBinMsgDataFrames then d.framesSection else []) ++
  ((if hasBit d.flags kAooBinMsgDataStreamMessage then int32Bytes d.msgSize else []) ++
  ((if hasBit d.flags kAooBinMsgDataSampleRate then toBytes 8 d.samplerate else []) ++
  (if hasBit d.flags kAooBinMsgDataTimeStamp then toBytes 8 d.tt else [])))

/-- Stream id, sequence, channel, flags, size, and the optional sections. -/
def DataPacket.head (d : DataPacket) (streamId : Int) : List UInt8 :=
  int32Bytes streamId ++ (int32Bytes d.sequence ++ ([toByte d.channel] ++
    (toBytes 1 d.flags ++ (toBytes 2 d.data.length ++ d.sections))))

/-- `write_bin_data`: the bytes written to a buffer with room for `size`; none
when the low-latency header is refused. -/
def writeBinData (size : Nat) (streamId : Int) (d : DataPacket) : List UInt8 :=
  if hasBit d.flags kAooBinMsgDataLowLatency then
    match (d.header streamId).encode (size - (d.head streamId).length) with
    | some header => d.head streamId ++ (header ++ d.data)
    | none => []
  else d.head streamId ++ d.data

/-- Where `find_low_latency_header` finds the header, counted from the start of
the arguments. -/
def findLowLatencyHeader (d : DataPacket) : Option Nat :=
  if hasBit d.flags kAooBinMsgDataLowLatency then
    some (12 + (if hasBit d.flags kAooBinMsgDataFrames then 8 else 0) +
      (if hasBit d.flags kAooBinMsgDataStreamMessage then 4 else 0) +
      (if hasBit d.flags kAooBinMsgDataSampleRate then 8 else 0) +
      (if hasBit d.flags kAooBinMsgDataTimeStamp then 8 else 0))
  else none

/-- What a source keeps about a sink while it sends (`cached_sink`). -/
structure CachedSink where
  id : Int
  streamId : Int
  channel : Int
  deriving DecidableEq, Repr

/-- `send_packet_bin`. There is no datagram when the packet does not fit the
local buffer: the copy of the payload would leave it. -/
def sendPacketBin (s : CachedSink) (id : Int) (d : DataPacket) : Option Datagram :=
  let header := binmsgWriteHeader AOO_MAX_PACKET_SIZE .sink kAooBinMsgCmdData s.id id
  let args := writeBinData (AOO_MAX_PACKET_SIZE - header.length) s.streamId d
  if header.length + args.length ≤ AOO_MAX_PACKET_SIZE then some (.bin (header ++ args)) else none

/-- Stream id and channel of a sink, written over those of the arguments. -/
def patchArgs (args : List UInt8) (d : DataPacket) (s : CachedSink) : List UInt8 :=
  let args := writeAt args 0 (int32Bytes s.streamId)
  let args := writeAt args 8 [toByte s.channel]
  match findLowLatencyHeader d with
  | some header => writeAt args (header + 12) (toBytes 8 (unsigned 4294967296 s.streamId))
  | none => args

/-- The loop of `send_packet` (binary): all sinks share one buffer, of which
`argsize` bytes are sent. -/
def sendPatched (id : Int) (d : DataPacket) (argsize : Nat) (args : List UInt8) :
    List CachedSink → List Datagram
  | [] => []
  | s :: sinks =>
    let args := patchArgs args d s
    let large := decide (s.id > 255) || decide (id > 255)
    let size := if large then kAooBinMsgLargeHeaderSize else kAooBinMsgHeaderSize
    .bin (binmsgWriteHeader size .sink kAooBinMsgCmdData s.id id ++ args.take argsize) ::
      sendPatched id d argsize args sinks

/-- The arguments of `/aoo/sink/<id>/data`. -/
def DataPacket.args (d : DataPacket) (id streamId : Int) : List OscArg :=
  [.int32 id, .int32 streamId, .int32 d.sequence,
    if hasBit d.flags kAooBinMsgDataTimeStamp then .timeTag d.tt else .nil,
    if hasBit d.flags kAooBinMsgDataSampleRate then .double d.samplerate else .nil,
    .int32 d.channel, .int32 d.totalSize,
    if hasBit d.flags kAooBinMsgDataStreamMessage then .int32 d.msgSize else .nil] ++
  (if hasBit d.flags kAooBinMsgDataFrames then [.int32 d.numFrames, .int32 d.frameIndex]
    else [.nil, .nil]) ++
  [if hasBit d.flags kAooBinMsgDataXRun then .nil else .blob d.data]

/-- `send_packet_osc`. `oscpack` throws when the message does not fit the local
buffer. -/
def sendPacketOsc (s : CachedSink) (id : Int) (d : DataPacket) : Option Datagram :=
  let msg : OscMessage := ⟨.sinkData s.id, d.args id s.streamId⟩
  if msg.size ≤ AOO_MAX_PACKET_SIZE then some (.osc msg) else none

/-- The datagrams of the OSC branch of `send_packet`, up to the first that does
not fit. -/
def sendOscToAll (id : Int) (d : DataPacket) : List CachedSink → List Datagram
  | [] => []
  | s :: sinks =>
    match sendPacketOsc s id { d with channel := s.channel } with
    | some msg => msg :: sendOscToAll id d sinks
    | none => []

/-- `send_packet`. The arguments of the binary form are written once, behind
room for the larger header. -/
def sendPacket (sinks : List CachedSink) (id : Int) (d : DataPacket) (binary : Bool) :
    List Datagram :=
  if binary then
    let args := writeBinData (AOO_MAX_PACKET_SIZE - kAooBinMsgLargeHeaderSize) kAooIdInvalid d
    if kAooBinMsgLargeHeaderSize + args.length ≤ AOO_MAX_PACKET_SIZE then
      sendPatched id d args.length args sinks
    else []
  else sendOscToAll id d sinks

/-! ## Parsing -/

/-- The low-latency section of the binary parser, which is checked against the
fields in front of it. -/
def readLowLatency (d : NetPacket) (size : Nat) (bs : List UInt8) :
    Option (NetPacket × List UInt8) :=
  if hasBit d.flags kAooBinMsgDataLowLatency then
    if bs.length < AOO_LOW_LATENCY_PACKET_HEADER_SIZE then none
    else
      match AooLowLatencyPacketHeader.decode bs with
      | none => none
      | some h =>
        if h.streamId.toNat ≠ unsigned 4294967296 d.streamId ∨
            h.sequence.toNat ≠ unsigned 4294967296 d.sequence ∨
            (h.fragmentIndex.toNat : Int) ≠ d.frameIndex ∨
            (h.fragmentCount.toNat : Int) ≠ d.numFrames ∨ h.payloadBytes.toNat ≠ size then none
        else some ({ d with
          protocolVersion := h.protocolVersion
          transportProfile := h.profile
          pcmFormat := h.pcmFormat
          absoluteSamplePosition := h.absoluteSamplePosition
          sourceTimestamp := h.sourceTimestamp
          blockFrames := h.blockFrames
          channelCount := h.channelCount }, bs.drop AOO_LOW_LATENCY_PACKET_HEADER_SIZE)
  else some (d, bs)

/-- The frames section: total size, frame count, frame index. -/
def readFrames (bs : List UInt8) : Int × Int × Int :=
  (int32Field bs, (field 2 (bs.drop 4) : Nat), (field 2 (bs.drop 6) : Nat))

/-- `Sink::handle_data_message` (binary): the packet, `none` for
`kAooErrorBadFormat`. Without a frames section the packet is a whole block. -/
def parseDataBin (bs : List UInt8) : Option NetPacket :=
  if bs.length < 12 then none
  else
    let streamId := int32Field bs
    let sequence := int32Field (bs.drop 4)
    let channel : Int := (field 1 (bs.drop 8) : Nat)
    let flags := field 1 (bs.drop 9)
    let size := field 2 (bs.drop 10)
    (readIf (hasBit flags kAooBinMsgDataFrames) 8 readFrames
      ((size : Int), if size > 0 then 1 else 0, 0) (bs.drop 12)).bind fun (frames, bs) =>
    (readIf (hasBit flags kAooBinMsgDataStreamMessage) 4 int32Field 0 bs).bind fun (msgSize, bs) =>
    (readIf (hasBit flags kAooBinMsgDataSampleRate) 8 (field 8) 0 bs).bind fun (samplerate, bs) =>
    (readIf (hasBit flags kAooBinMsgDataTimeStamp) 8 (field 8) 0 bs).bind fun (tt, bs) =>
    (readLowLatency
      { totalSize := frames.1, numFrames := frames.2.1, frameIndex := frames.2.2, data := [],
        streamId, sequence, channel, flags, tt, samplerate, msgSize }
      size bs).bind fun (d, bs) =>
    if bs.length < size then none else some { d with data := bs.take size }

/-- `AsInt32` -/
def asInt32 : OscArg → Option Int
  | .int32 v => some v
  | _ => none

/-- `AsTimeTag` -/
def asTimeTag : OscArg → Option Nat
  | .timeTag t => some t
  | _ => none

/-- `AsDouble` -/
def asDouble : OscArg → Option Nat
  | .double bits => some bits
  | _ => none

/-- `AsBlob` -/
def asBlob : OscArg → Option (List UInt8)
  | .blob data => some data
  | _ => none

/-- An argument that may be `nil`: its value and the flag that it sets. -/
def optional {α : Type} (read : OscArg → Option α) (default : α) (flag : Nat) (arg : OscArg) :
    Option (α × Nat) :=
  if arg = .nil then some (default, 0) else (read arg).map fun v => (v, flag)

/-- `Sink::handle_data_message` (OSC): the id of the source and the packet;
`none` when `oscpack` throws. -/
def parseDataOsc : List OscArg → Option (Int × NetPacket)
  | id :: streamId :: sequence :: tt :: samplerate :: channel :: totalSize :: msgSize ::
      numFrames :: frameIndex :: data :: _ =>
    (asInt32 id).bind fun id =>
    (asInt32 streamId).bind fun streamId =>
    (asInt32 sequence).bind fun sequence =>
    (optional asTimeTag 0 kAooBinMsgDataTimeStamp tt).bind fun (tt, f₁) =>
    (optional asDouble 0 kAooBinMsgDataSampleRate samplerate).bind fun (samplerate, f₂) =>
    (asInt32 channel).bind fun channel =>
    (asInt32 totalSize).bind fun totalSize =>
    (optional asInt32 0 kAooBinMsgDataStreamMessage msgSize).bind fun (msgSize, f₃) =>
    -- the frame count sets the flag for stream messages
    (if numFrames = .nil then some ((1, 0), 0)
      else (asInt32 numFrames).bind fun n => (asInt32 frameIndex).map fun i =>
        ((n, i), kAooBinMsgDataStreamMessage)).bind fun ((numFrames, frameIndex), f₄) =>
    (if data = .nil then some ([], kAooBinMsgDataXRun)
      else (asBlob data).map fun data => (data, 0)).bind fun (data, f₅) =>
    some (id, { flags := f₁ ||| f₂ ||| f₃ ||| f₄ ||| f₅, streamId, sequence, channel, tt,
                samplerate, totalSize, msgSize, numFrames, frameIndex, data })
  | _ => none

/-- `Sink::handleMessage` for data messages: the ids of sink and source, and the
packet that is handed to `handle_data_packet`. -/
def parseData : Datagram → Option (Int × Int × NetPacket)
  | .bin data =>
    if binmsgCheck data && decide (0 < binmsgHeadersize data) &&
        binmsgType data == AooMsgType.sink.toNat && binmsgCmd data == kAooBinMsgCmdData then
      (parseDataBin (data.drop (binmsgHeadersize data))).map fun d =>
        (binmsgTo data, binmsgFrom data, d)
    else none
  | .osc msg =>
    match msg.address with
    | .sinkData sinkId => (parseDataOsc msg.args).map fun (id, d) => (sinkId, id, d)
    | _ => none

end Aoo.Stream
