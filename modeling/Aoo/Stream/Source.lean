import Aoo.Lib.Chunks
import Aoo.Stream.History
import Aoo.Stream.RoundTrip

/-!
# Sending a stream

The part of `source.cpp` between the encoder and the network: `Source::send_data`
cuts an encoded block into frames, `Source::send_xruns` sends empty blocks,
`Source::resend_data` answers data requests from the history buffer.

The encoder, the clock and the audio queue are outside: a block comes with its
encoded audio, its stream messages, its time tag and its sample rate. A source
takes steps in any order, and `Run` records what it sends and which blocks the
history buffer has been given since it was last cleared.
-/

namespace Aoo.Stream

open Lib

/-- `kDataHeaderSize`: the room kept for the head of an OSC data message. -/
def kDataHeaderSize : Nat := 82

/-- `kBinDataHeaderSize`: the room kept for the head of a binary data message. -/
def kBinDataHeaderSize : Nat := kAooBinMsgLargeHeaderSize + 40 + AOO_LOW_LATENCY_PACKET_HEADER_SIZE

/-- The packet sizes that `Source::control` accepts. -/
structure PacketSize where
  val : Nat
  ge : kDataHeaderSize + 64 ≤ val
  le : val ≤ AOO_MAX_PACKET_SIZE
  deriving DecidableEq, Repr

/-- `kAooCtlSetPacketSize` -/
def PacketSize.control (packetsize : Int) : PacketSize :=
  if h : packetsize < kDataHeaderSize + 64 then ⟨kDataHeaderSize + 64, by decide, by decide⟩
  else if h' : packetsize > AOO_MAX_PACKET_SIZE then ⟨AOO_MAX_PACKET_SIZE, by decide, by decide⟩
  else ⟨packetsize.toNat, by omega, by omega⟩

/-- `maxpacketsize`: the largest frame. -/
def maxpacketsize (packetSize : PacketSize) (binary : Bool) : Nat :=
  packetSize.val - (if binary then kBinDataHeaderSize else kDataHeaderSize)

/-- `data_request`: a whole block (negative offset), or the frames
`offset + i` for the bits `i` of the bitset. -/
structure DataRequest where
  sequence : Int
  offset : Int
  bitset : Nat
  deriving DecidableEq, Repr

/-- `sink_desc` -/
structure SinkDesc where
  id : Int
  streamId : Int
  channel : Int
  dataRequests : List DataRequest := []
  id_range : 0 ≤ id ∧ id < 2147483648
  stream_range : -2147483648 ≤ streamId ∧ streamId < 2147483648
  channel_range : -2147483648 ≤ channel ∧ channel < 2147483648
  deriving DecidableEq, Repr

def SinkDesc.isActive (s : SinkDesc) : Bool := s.streamId ≠ kAooIdInvalid

def SinkDesc.cached (s : SinkDesc) : CachedSink := ⟨s.id, s.streamId, s.channel⟩

/-- A configuration that was decoded from the stream metadata. -/
structure LowLatencyConfiguration where
  val : AooLowLatencyStreamConfiguration
  ok : val.validate = true
  deriving DecidableEq, Repr

def invalidStream : Int := -1

structure Source where
  id : Int
  sequence : Int := invalidStream
  history : HistoryBuffer := {}
  lowLatency : Option LowLatencyConfiguration := none
  absoluteSamplePosition : UInt64 := 0
  packetSize : PacketSize
  binary : Bool
  redundancy : Nat
  sinks : List SinkDesc := []
  id_range : 0 ≤ id ∧ id < 2147483648
  deriving DecidableEq, Repr

/-- `cached_sinks_`: the active sinks. -/
def Source.cachedSinks (s : Source) : List CachedSink :=
  (s.sinks.filter (·.isActive)).map (·.cached)

/-- A block as `send_data` has it: the stream messages, padded to four bytes, the
encoded audio, and what comes with them. -/
@[ext] structure Block where
  tt : Nat
  samplerate : Nat
  sourceTimestamp : UInt64
  absoluteSamplePosition : UInt64
  message : List UInt8
  audio : List UInt8
  tt_lt : tt < 18446744073709551616
  samplerate_lt : samplerate < 18446744073709551616
  message_pad : message.length % 4 = 0
  size_lt : message.length + audio.length < 2147483648
  deriving Repr

instance : DecidableEq Block := fun _ _ => decidable_of_iff' _ Block.ext_iff

/-- `sendbuffer_` -/
def Block.content (b : Block) : List UInt8 := b.message ++ b.audio

/-- The sequence number after `sequence_++`, which wraps before `INT32_MAX`. -/
def nextSequence (seq : Int) : Int := if seq + 1 = 2147483647 then 0 else seq + 1

/-! ## `send_data` and `send_xruns` -/

/-- `num_frames` of a block: `dv.quot + (dv.rem != 0)`. -/
def numFrames (total maxsize : Nat) : Nat := numChunks total maxsize

/-- The fields of the low-latency extension. -/
def DataPacket.withLowLatency (d : DataPacket) (c : LowLatencyConfiguration) (position : UInt64) :
    DataPacket :=
  { d with
    flags := d.flags ||| kAooBinMsgDataLowLatency
    protocolVersion := c.val.protocolVersion
    transportProfile := c.val.profile
    pcmFormat := c.val.pcmFormat
    absoluteSamplePosition := position
    blockFrames := c.val.blockFrames
    channelCount := c.val.channelCount }

/-- The flags that `send_data` sets, without low latency. -/
def Block.flags (b : Block) (frames : Nat) : Nat :=
  (if isZero b.samplerate then 0 else kAooBinMsgDataSampleRate) |||
  (if frames > 1 then kAooBinMsgDataFrames else 0) |||
  (if b.message.length > 0 then kAooBinMsgDataStreamMessage else 0) |||
  (if b.tt ≠ 0 then kAooBinMsgDataTimeStamp else 0)

/-- The extension is there when the stream is low-latency. -/
def Source.extend (s : Source) (d : DataPacket) (position : UInt64) : DataPacket :=
  match s.lowLatency with
  | some c => d.withLowLatency c position
  | none => d

/-- The packet of `send_data` without the extension. -/
def Source.plainBlock (s : Source) (b : Block) : DataPacket where
  sequence := s.sequence
  channel := 0
  tt := b.tt
  samplerate := b.samplerate
  totalSize := b.content.length
  msgSize := b.message.length
  numFrames := numFrames b.content.length (maxpacketsize s.packetSize s.binary)
  frameIndex := 0
  data := []
  flags := b.flags (numFrames b.content.length (maxpacketsize s.packetSize s.binary))
  sourceTimestamp := b.sourceTimestamp

/-- The packet of `send_data` before it is cut into frames. -/
def Source.blockPacket (s : Source) (b : Block) : DataPacket :=
  s.extend (s.plainBlock b) b.absoluteSamplePosition

/-- The packet of `send_xruns` without the extension. -/
def Source.plainXrun (s : Source) : DataPacket where
  sequence := s.sequence
  channel := 0
  tt := 0
  samplerate := 0
  totalSize := 0
  msgSize := 0
  numFrames := 0
  frameIndex := 0
  data := []
  flags := kAooBinMsgDataXRun

/-- The packet of `send_xruns`. -/
def Source.xrunPacket (s : Source) : DataPacket :=
  s.extend s.plainXrun s.absoluteSamplePosition

/-- The calls of `dosend`: the large frames, then the remaining bytes as one
frame; a block without content is sent as one empty frame. -/
def framePackets (d : DataPacket) (content : List UInt8) (maxsize : Nat) : List DataPacket :=
  let quot := content.length / maxsize
  let rem := content.length % maxsize
  (List.range quot).map (fun j =>
    { d with frameIndex := j, data := (content.drop (j * maxsize)).take maxsize }) ++
  if rem ≠ 0 ∨ content.length = 0 then
    [{ d with frameIndex := quot, data := (content.drop (quot * maxsize)).take rem }]
  else []

/-- A packet on its way to a sink: whether it comes from `resend_data`, its form,
and the datagram. There is none when it does not fit the local buffer. -/
structure Emission where
  sink : CachedSink
  packet : DataPacket
  resent : Bool
  binary : Bool
  datagram : Option Datagram
  deriving DecidableEq, Repr

/-- The emissions of one call of `send_packet`. -/
def emit (sinks : List CachedSink) (id : Int) (binary : Bool) (d : DataPacket) : List Emission :=
  sinks.mapIdx fun i s =>
    ⟨s, { d with channel := s.channel }, false, binary, (sendPacket sinks id d binary)[i]?⟩

/-- A failed attempt ends the call. -/
def upToFailure : List Emission → List Emission
  | [] => []
  | e :: es => if e.datagram.isSome then e :: upToFailure es else [e]

/-- The absolute position behind a block of a low-latency stream. -/
def Source.advance (s : Source) (position : UInt64) : UInt64 :=
  match s.lowLatency with
  | some c => position + UInt64.ofNat c.val.blockFrames.toNat
  | none => s.absoluteSamplePosition

/-- `history_.push()->set(...)`, if there is a history buffer. -/
def Source.save (s : Source) (block : SentBlock) : HistoryBuffer :=
  if s.history.capacity > 0 then s.history.push block else s.history

/-- One block of `send_data`. Without active sinks it is not sent at all. -/
def Source.sendBlock (s : Source) (b : Block) : Source × List Emission :=
  if s.sequence = invalidStream ∨ s.cachedSinks = [] then (s, [])
  else
    let d := s.blockPacket b
    let maxsize := maxpacketsize s.packetSize s.binary
    let packets := framePackets d b.content maxsize
    ({ s with
        sequence := nextSequence s.sequence
        absoluteSamplePosition := s.advance b.absoluteSamplePosition
        history := s.save (SentBlock.set d b.content maxsize) },
      upToFailure ((List.replicate s.redundancy packets).flatten.flatMap
        (emit s.cachedSinks s.id s.binary)))

/-- One empty block of `send_xruns`. -/
def Source.sendXrun (s : Source) : Source × List Emission :=
  if s.sequence = invalidStream ∨ s.cachedSinks = [] then (s, [])
  else
    let d := s.xrunPacket
    ({ s with
        sequence := nextSequence s.sequence
        absoluteSamplePosition := s.advance s.absoluteSamplePosition
        history := s.save (SentBlock.set d [] 0) },
      upToFailure (emit s.cachedSinks s.id s.binary d))

/-! ## `resend_data` -/

/-- The packet that `resend_data` makes of a stored block. The time tag is not
set and has its default. -/
def SentBlock.packet (b : SentBlock) (channel : Int) : DataPacket where
  sequence := b.sequence
  channel := channel
  tt := 0
  samplerate := b.samplerate
  totalSize := b.buffer.length
  msgSize := b.messageSize
  numFrames := b.numFrames
  frameIndex := 0
  data := []
  flags := b.flags
  protocolVersion := b.protocolVersion
  transportProfile := b.transportProfile
  pcmFormat := b.pcmFormat
  absoluteSamplePosition := b.absoluteSamplePosition
  sourceTimestamp := b.sourceTimestamp
  blockFrames := b.blockFrames
  channelCount := b.channelCount

/-- The frames that a request asks for, out of `numFrames`. -/
def DataRequest.frames (r : DataRequest) (numFrames : Int) : List Int :=
  if r.offset < 0 then (List.range numFrames.toNat).map fun i : Nat => (i : Int)
  else
    (((List.range 16).filter fun i => r.bitset.testBit i).map fun i : Nat =>
      r.offset + (i : Int)).filter fun index => decide (index < numFrames)

/-- `copy_frame` for each requested frame; `bufOffset` bytes of the send buffer
are in use. -/
def SentBlock.copyFrames (b : SentBlock) (bufOffset : Int) : List Int → List (Int × List UInt8)
  | [] => []
  | index :: indices =>
    let bytes := b.getFrame index (b.buffer.length - bufOffset)
    if bytes.length > 0 then (index, bytes) :: b.copyFrames (bufOffset + bytes.length) indices
    else b.copyFrames bufOffset indices

/-- The packets of one data request; `none` when the vector of frames cannot be
allocated because the frame count is negative. -/
def SentBlock.resend (b : SentBlock) (channel : Int) (r : DataRequest) :
    Option (List DataPacket) :=
  if b.numFrames < 0 then none
  else
    let frames := if b.numFrames > 0 then b.copyFrames 0 (r.frames b.numFrames) else [(0, [])]
    some (frames.map fun f => { b.packet channel with frameIndex := f.1, data := f.2 })

/-- What `resend_data` sends for one request of a sink; `none` when it throws. -/
def Source.resendRequest (s : Source) (sink : SinkDesc) (r : DataRequest) :
    Option (List Emission) :=
  match s.history.find r.sequence with
  | none => some []
  | some b => (b.resend sink.channel r).map fun packets => packets.map fun d =>
      ⟨sink.cached, d, true, s.binary,
        if s.binary then sendPacketBin sink.cached s.id d else sendPacketOsc sink.cached s.id d⟩

/-- The requests of all sinks, up to one that throws. -/
def Source.resendRequests (s : Source) : List (SinkDesc × DataRequest) → List Emission
  | [] => []
  | (sink, r) :: requests =>
    match s.resendRequest sink r with
    | none => []
    | some es => es ++ s.resendRequests requests

/-- `Source::resend_data`, which empties the queues of all sinks. -/
def Source.resendData (s : Source) : Source × List Emission :=
  if s.history.capacity = 0 then (s, [])
  else
    ({ s with sinks := s.sinks.map fun sink => { sink with dataRequests := [] } },
      upToFailure (s.resendRequests
        (s.sinks.flatMap fun sink => sink.dataRequests.map fun r => (sink, r))))

/-! ## Runs -/

/-- A block that went to the history buffer: the packet that describes it, its
content, its frame size, and the packets in which it was sent. -/
structure Original where
  packet : DataPacket
  content : List UInt8
  maxsize : Nat
  packets : List DataPacket
  deriving DecidableEq, Repr

/-- A source with two records that no function of the program reads: the blocks
saved since the history buffer was last cleared, and all emissions. -/
structure Run where
  source : Source
  saved : List Original := []
  emitted : List Emission := []
  deriving DecidableEq, Repr

/-- What can happen to a source: a new stream, a new history buffer, new
settings (sinks, ids of streams, channels, requests), and the calls of `send`.
`invalidate` is what `setup` and a new format do. -/
inductive Action
  | makeNewStream (configuration : Option LowLatencyConfiguration)
  | resizeHistory (n : Nat) (h : n < 2147483648)
  | invalidate (n : Nat) (h : n < 2147483648)
  | control (packetSize : PacketSize) (binary : Bool) (redundancy : Nat)
  | setSinks (sinks : List SinkDesc)
  | sendXrun
  | sendBlock (b : Block)
  | resendData

/-- The record of a block that is saved. -/
def Run.remember (r : Run) (o : Original) : List Original :=
  if r.source.history.capacity > 0 ∧ ¬ (r.source.sequence = invalidStream ∨
    r.source.cachedSinks = []) then r.saved ++ [o] else r.saved

def Source.originalBlock (s : Source) (b : Block) : Original :=
  let d := s.blockPacket b
  let maxsize := maxpacketsize s.packetSize s.binary
  ⟨d, b.content, maxsize, framePackets d b.content maxsize⟩

def Source.originalXrun (s : Source) : Original :=
  ⟨s.xrunPacket, [], 0, [s.xrunPacket]⟩

def Run.step (r : Run) : Action → Run
  | .makeNewStream configuration =>
    { r with
      saved := []
      source := { r.source with
        sequence := 0, absoluteSamplePosition := 0, lowLatency := configuration
        history := r.source.history.clear } }
  | .resizeHistory n _ =>
    { r with saved := [], source := { r.source with history := r.source.history.resize n } }
  | .invalidate n _ =>
    { r with
      saved := []
      source := { r.source with
        history := r.source.history.resize n, sequence := invalidStream } }
  | .control packetSize binary redundancy =>
    { r with source := { r.source with packetSize, binary, redundancy } }
  | .setSinks sinks => { r with source := { r.source with sinks } }
  | .sendXrun =>
    { source := r.source.sendXrun.1
      saved := r.remember r.source.originalXrun
      emitted := r.emitted ++ r.source.sendXrun.2 }
  | .sendBlock b =>
    { source := (r.source.sendBlock b).1
      saved := r.remember (r.source.originalBlock b)
      emitted := r.emitted ++ (r.source.sendBlock b).2 }
  | .resendData =>
    { r with
      source := r.source.resendData.1
      emitted := r.emitted ++ r.source.resendData.2 }

end Aoo.Stream
