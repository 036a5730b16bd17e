import Aoo.Stream.JitterBuffer
import Aoo.Stream.Source

/-!
# The receiving side of a stream

What `source_desc` of `sink.cpp` does with the jitter buffer: `handle_start` and
`update` set it up, `add_packet` puts packets into it, `try_decode_block` takes
blocks out, and `check_missing_blocks` asks for what is missing. `process` calls
the last three; here they are actions that may come in any order.

Sample counts, the resampler and the decoder are not modelled. Where they or a clock
decide, the decision is an argument of the action (`DecodeInput`, `due`); that of
`check_missing_blocks` is made from the clock in `Pacing`.
-/

namespace Aoo.Stream

open Lib

/-- `stream_state` -/
inductive StreamState
  | active
  | inactive
  | buffering
  deriving DecidableEq, Repr

/-- A call whose arguments the callee does not check. -/
inductive Call
  | push (full : Bool) (lastPushed seq : Int)
  | hasFrame (index numFrames : Int)
  | addFrame (index numFrames : Int)
  | copyFrames (frames : List (Option (List UInt8))) (totalSize messageSize : Int)
  deriving DecidableEq, Repr

/-- `stream_stats` -/
structure StreamStats where
  dropped : Nat := 0
  resent : Nat := 0
  xrun : Nat := 0
  deriving DecidableEq, Repr

/-- `source_desc`. Of the decoder there is the block size of its format, and of the
sink its clock, `elapsedTime`. `calls`, `decoded`, the complete blocks of the stream that
went to the decoder, latest first, and `asked`, the slots whose block has been requested
since it got the slot, with the time, are records that no function of the program reads. -/
structure SourceDesc where
  streamId : Int := kAooIdInvalid
  decoder : Option Nat := none
  lowLatency : Option AooLowLatencyStreamConfiguration := none
  latencyBlocks : Nat := 0
  streamState : StreamState := .inactive
  stopped : Bool := false
  underrun : Bool := false
  lastAbsoluteSamplePosition : UInt64 := 0
  consecutiveMissingBlocks : Nat := 0
  channel : Int := 0
  jitterBuffer : JitterBuffer := {}
  dataRequests : List DataRequest := []
  stats : StreamStats := {}
  elapsedTime : ℚ := 0
  calls : List Call := []
  decoded : List ReceivedBlock := []
  asked : List (Nat × ℚ) := []
  deriving DecidableEq, Repr

namespace SourceDesc

/-- The value of an integer after conversion to `int32_t`. -/
def toInt32 (v : Int) : Int := signed 4294967296 (unsigned 4294967296 v)

/-- The stream has the profile for wired networks. -/
def wired (s : SourceDesc) : Bool :=
  s.lowLatency.any fun c => c.profile == kAooLowLatencyProfileDeterministicWired

def record (s : SourceDesc) (c : Call) : SourceDesc := { s with calls := c :: s.calls }

/-- The record of requests without a slot. -/
def otherAsked (s : SourceDesc) (slot : Nat) : List (Nat × ℚ) :=
  s.asked.filter fun r => r.1 ≠ slot

/-! ## Setting up -/

/-- `low_latency_resident_blocks`. A low-latency block has at least 16 frames, so
that the result is an `int32_t`. -/
def lowLatencyResidentBlocks (targetFrames blockFrames : Nat) : Nat :=
  if targetFrames = 0 ∨ blockFrames = 0 then 1
  else (targetFrames + blockFrames - 1) / blockFrames + 1

/-- What `update` computes from the settings of the sink and the sample rates, in
blocks: the regular latency, the least latency and the size of the buffer. The
second is at least one block, since the block size of the sink is positive. -/
structure UpdateArgs where
  target : UInt32
  latencyBlocks : Nat
  minLatencyBlocks : Nat
  bufferBlocks : Nat
  spare : List ReceivedBlock
  pos : 0 < minLatencyBlocks

/-- The latency for a stream with blocks of `blockSize` frames. -/
def UpdateArgs.latency (u : UpdateArgs) (lowLatency : Option AooLowLatencyStreamConfiguration)
    (blockSize : Nat) : Nat :=
  max (match lowLatency with
    | some c => lowLatencyResidentBlocks c.targetLatencyFrames.toNat blockSize
    | none => u.latencyBlocks) u.minLatencyBlocks

/-- `source_desc::update` -/
def update (s : SourceDesc) (u : UpdateArgs) : SourceDesc :=
  match s.decoder with
  | none => s
  | some blockSize =>
    let lowLatency := s.lowLatency.map fun c =>
      if u.target > 0 then { c with targetLatencyFrames := u.target } else c
    let latencyBlocks := u.latency lowLatency blockSize
    let capacity := max latencyBlocks u.bufferBlocks
    { s with
      lowLatency, latencyBlocks
      jitterBuffer := s.jitterBuffer.resize capacity u.spare
      asked := s.asked.filter fun r => r.1 < min s.jitterBuffer.capacity capacity
      channel := 0
      underrun := false
      stopped := false }

/-- The arguments of `handle_start`: `format` is the block size of the new format
if the format has changed, and `decoderOk` says if the decoder takes it. -/
structure StartArgs where
  streamId : Int
  seqStart : Int
  configuration : Option AooLowLatencyStreamConfiguration
  format : Option Nat
  decoderOk : Bool
  update : UpdateArgs
  range : -2147483648 ≤ seqStart ∧ seqStart < 2147483648

theorem StartArgs.range_zero : -2147483648 ≤ (0 : Int) ∧ (0 : Int) < 2147483648 := by
  decide

/-- The end of `handle_start`. -/
def restart (s : SourceDesc) (a : StartArgs) : SourceDesc :=
  let s := s.update a.update
  { s with jitterBuffer := s.jitterBuffer.resetHead (toInt32 (a.seqStart - 1)) }

/-- `source_desc::handle_start`. Without decoder and new format it ends the
program (`update` asserts that there is a decoder). -/
def handleStart (s : SourceDesc) (a : StartArgs) : SourceDesc :=
  if a.streamId = s.streamId then s
  else
    let s := { s with
      streamId := a.streamId
      lowLatency := a.configuration
      lastAbsoluteSamplePosition := 0
      consecutiveMissingBlocks := 0
      decoded := [] }
    match a.format with
    | some n =>
      if a.decoderOk then { s with decoder := some n }.restart a else { s with decoder := none }
    | none => if s.decoder.isSome then s.restart a else s

/-- `source_desc::handle_underrun` -/
def handleUnderrun (s : SourceDesc) : SourceDesc :=
  { s with jitterBuffer := s.jitterBuffer.reset, streamState := .buffering, underrun := false }

/-- `source_desc::handle_overrun` -/
def handleOverrun (s : SourceDesc) : SourceDesc :=
  { s with jitterBuffer := s.jitterBuffer.reset, streamState := .buffering }

/-! ## `add_packet` -/

/-- `push`, and an assignment to the new block. -/
def pushBlock (s : SourceDesc) (seq : Int) (f : ReceivedBlock → ReceivedBlock) : SourceDesc :=
  { s.record (.push s.jitterBuffer.full s.jitterBuffer.lastPushed seq) with
    jitterBuffer := s.jitterBuffer.emplace seq f
    asked := s.otherAsked s.jitterBuffer.head }

/-- The loop that fills gaps with `n` placeholder blocks. -/
def fillGaps (seq : Int) : (n : Nat) → SourceDesc → SourceDesc
  | 0, s => s
  | n + 1, s => fillGaps (seq + 1) n (s.pushBlock seq (·.initPlaceholder seq))

/-- Gaps are filled if there is space; otherwise only the new block is kept. The
distance is an `int32_t`. -/
def makeRoom (s : SourceDesc) (seq : Int) : SourceDesc :=
  let newest := s.jitterBuffer.lastPushed
  if newest ≠ JitterBuffer.sentinel then
    let numblocks := toInt32 (seq - newest)
    let space : Int := s.jitterBuffer.capacity - s.jitterBuffer.size
    if numblocks > space then s.handleOverrun
    else s.fillGaps (newest + 1) (seq - (newest + 1)).toNat
  else s

/-- `block->add_frame`, if the packet has data. -/
def addFrame (s : SourceDesc) (d : NetPacket) (slot : Nat) : SourceDesc :=
  if d.data.length > 0 then
    { s.record (.addFrame d.frameIndex (s.jitterBuffer.slot slot).numFrames) with
      jitterBuffer := s.jitterBuffer.modify slot (·.addFrame d.frameIndex d.data) }
  else s

/-- A packet of a block that is not in the buffer. -/
def addBlock (s : SourceDesc) (d : NetPacket) : SourceDesc × Bool :=
  if d.sequence ≤ s.jitterBuffer.lastPushed then (s, false)
  else
    let s := s.makeRoom d.sequence
    let slot := s.jitterBuffer.head
    ((s.pushBlock d.sequence (·.init d.toDataPacket)).addFrame d slot, true)

/-- A frame that was requested, or came late. Only the first one counts. -/
def noteResent (s : SourceDesc) (d : NetPacket) (slot : Nat) : SourceDesc :=
  if d.sequence ≠ s.jitterBuffer.lastPushed ∧ (s.jitterBuffer.slot slot).numTries > 0 then
    { s with
      stats := if (s.jitterBuffer.slot slot).resent then s.stats
        else { s.stats with resent := s.stats.resent + 1 }
      jitterBuffer := s.jitterBuffer.modify slot fun b => { b with resent := true } }
  else s

/-- A packet of the block in a slot. -/
def updateBlock (s : SourceDesc) (d : NetPacket) (slot : Nat) : SourceDesc × Bool :=
  let block := s.jitterBuffer.slot slot
  if block.placeholder then
    let s := { s with jitterBuffer := s.jitterBuffer.modify slot (·.init d.toDataPacket) }
    ((s.noteResent d slot).addFrame d slot, true)
  else if block.isEmpty then (s, false)
  else
    let s := s.record (.hasFrame d.frameIndex block.numFrames)
    if block.hasFrame d.frameIndex then (s, false)
    else ((s.noteResent d slot).addFrame d slot, true)

/-- The check against the block that was popped last; `none` if the packet is too
old. -/
def checkWrap (s : SourceDesc) (seq : Int) : Option SourceDesc :=
  if seq ≤ s.jitterBuffer.lastPopped then
    if s.jitterBuffer.lastPopped - seq ≥ 1073741823 then
      some { s with jitterBuffer := s.jitterBuffer.reset }
    else none
  else some s

/-- `source_desc::add_packet` -/
def addPacket (s : SourceDesc) (d : NetPacket) : SourceDesc × Bool :=
  if d.streamId ≠ s.streamId then (s, false)
  else if s.lowLatency.isSome ∧ d.absoluteSamplePosition + UInt64.ofNat d.blockFrames.toNat ≤
      s.lastAbsoluteSamplePosition then (s, false)
  else
    match s.checkWrap d.sequence with
    | none => (s, false)
    | some s =>
      match s.jitterBuffer.find d.sequence with
      | none => s.addBlock d
      | some slot => s.updateBlock d slot

/-! ## `try_decode_block` -/

/-- What clocks, resampler and user decide: the latency that the user has set,
whether too few or too many samples have elapsed, and whether there is room for a
block of samples. -/
structure DecodeInput where
  target : UInt32
  early : Bool
  late : Bool
  written : Bool

def frameSize (s : SourceDesc) : Nat := s.decoder.getD 0

/-- The user has changed the latency. -/
def retarget (s : SourceDesc) (target : UInt32) : SourceDesc :=
  match s.lowLatency with
  | none => s
  | some c =>
    if target > 0 ∧ target ≠ c.targetLatencyFrames then
      let blocks := lowLatencyResidentBlocks target.toNat s.frameSize
      { s with
        lowLatency := some { c with targetLatencyFrames := target }
        latencyBlocks := blocks
        streamState := if blocks > s.latencyBlocks ∧ s.streamState = .active then .buffering
          else s.streamState }
    else s

/-- The absolute position behind a block. -/
def blockEnd (s : SourceDesc) (b : ReceivedBlock) : UInt64 :=
  b.absoluteSamplePosition + UInt64.ofNat (max b.blockFrames.toNat s.frameSize)

/-- The oldest block is given up. -/
def expire (s : SourceDesc) : SourceDesc :=
  { s with
    lastAbsoluteSamplePosition :=
      max s.lastAbsoluteSamplePosition (s.blockEnd s.jitterBuffer.front)
    jitterBuffer := s.jitterBuffer.pop }

/-- The number of complete blocks in front. -/
def countComplete : List ReceivedBlock → Nat
  | [] => 0
  | b :: bs => if b.complete then countComplete bs + 1 else 0

def completeBlocks (s : SourceDesc) : Nat :=
  countComplete (s.jitterBuffer.indices.map s.jitterBuffer.slot)

/-- The loop that gives up an incomplete block in front of enough complete ones. -/
def discardStale : (fuel : Nat) → SourceDesc → SourceDesc
  | 0, s => s
  | fuel + 1, s =>
    if s.jitterBuffer.empty || s.jitterBuffer.front.complete then s
    else if countComplete ((s.jitterBuffer.indices.map s.jitterBuffer.slot).drop 1) <
        s.latencyBlocks then s
    else s.expire.discardStale fuel

def trim : (n : Nat) → SourceDesc → SourceDesc
  | 0, s => s
  | n + 1, s => s.expire.trim n

/-- Before the stream is active; the result is there if `try_decode_block` ends
here. -/
def buffer (s : SourceDesc) (i : DecodeInput) : SourceDesc × Option Bool :=
  if s.stopped then (s, some false)
  else
    let s := if s.wired then s.discardStale s.jitterBuffer.size else s
    let complete := if s.lowLatency.isSome then s.completeBlocks else 0
    let trimCount := if s.wired then complete - s.latencyBlocks else 0
    let s := s.trim trimCount
    let needsDepth := s.lowLatency.isSome && decide (complete - trimCount < s.latencyBlocks)
    if i.early || decide (s.jitterBuffer.size < s.latencyBlocks) || needsDepth then
      if s.lowLatency.isNone && i.late then (s, some false) else (s, some i.written)
    else ({ s with streamState := .active }, none)

/-- Four blocks are missing in a row: buffer again. -/
def reacquire (s : SourceDesc) : SourceDesc :=
  if s.consecutiveMissingBlocks ≥ 4 then
    { s with
      consecutiveMissingBlocks := 0
      jitterBuffer := s.jitterBuffer.reset
      streamState := .buffering }
  else s

/-- A block is missing in a low-latency stream. -/
def countMissing (s : SourceDesc) : SourceDesc :=
  { s with
    lastAbsoluteSamplePosition := s.lastAbsoluteSamplePosition + UInt64.ofNat s.frameSize
    consecutiveMissingBlocks := s.consecutiveMissingBlocks + 1 }

/-- The buffer is empty. -/
def decodeMissing (s : SourceDesc) (i : DecodeInput) : SourceDesc × Bool :=
  if s.lowLatency.isSome ∧ s.streamState = .active ∧ i.written then
    ({ s with
        jitterBuffer := s.jitterBuffer.advanceMissing
        stats := { s.stats with dropped := s.stats.dropped + 1 } }.countMissing.reacquire, true)
  else (s, false)

/-- The data of the first block goes to the decoder; an incomplete block is
dropped. -/
def readFront (s : SourceDesc) (b : ReceivedBlock) : SourceDesc :=
  if b.complete then
    let s := { s with
      channel := b.channel
      decoded := b :: s.decoded
      stats := if hasBit b.flags kAooBinMsgDataXRun then
          { s.stats with xrun := s.stats.xrun + 1 }
        else s.stats }
    if b.totalSize > 0 then
      s.record (.copyFrames b.frames.copyFrames b.totalSize b.messageSize)
    else s
  else { s with stats := { s.stats with dropped := s.stats.dropped + 1 } }

def popFront (s : SourceDesc) : SourceDesc := { s with jitterBuffer := s.jitterBuffer.pop }

/-- The first block is decoded and popped. -/
def decodeFront (s : SourceDesc) (i : DecodeInput) : SourceDesc × Bool :=
  let b := s.jitterBuffer.front
  let s := s.readFront b
  if !i.written then (s.popFront, false)
  else if s.lowLatency.isNone then (s.popFront, true)
  else if b.complete then
    ({ s with
        consecutiveMissingBlocks := 0
        lastAbsoluteSamplePosition :=
          max s.lastAbsoluteSamplePosition (s.blockEnd b) }.popFront, true)
  else
    let s := s.countMissing
    if s.consecutiveMissingBlocks ≥ 4 then (s.reacquire, true) else (s.popFront, true)

/-- `try_decode_block` behind the buffering. -/
def decode (s : SourceDesc) (i : DecodeInput) : SourceDesc × Bool :=
  let s := if s.wired ∧ s.streamState = .active then
      s.trim (s.completeBlocks - s.latencyBlocks)
    else s
  if s.jitterBuffer.empty then s.decodeMissing i else s.decodeFront i

/-- `source_desc::try_decode_block` -/
def tryDecodeBlock (s : SourceDesc) (i : DecodeInput) : SourceDesc × Bool :=
  let s := s.retarget i.target
  if s.streamState = .buffering then
    match s.buffer i with
    | (s, some result) => (s, result)
    | (s, none) => s.decode i
  else s.decode i

/-! ## `check_missing_blocks` -/

/-- The frames of the window at `offset` that the inner loop tests. -/
def window (b : ReceivedBlock) (offset : Int) : List Nat :=
  (List.range 16).filter fun i : Nat => decide (offset + i < b.numFrames)

/-- The bitset of the missing frames in the window at `offset`. -/
def missingBits (b : ReceivedBlock) (offset : Int) : Nat :=
  (window b offset).foldl (fun bitset (i : Nat) =>
    if b.hasFrame (offset + i) then bitset else bitset ||| 1 <<< i) 0

/-- The loop over the windows of a block. The offset is an `int16_t`; after as
many steps as it has multiples of 16 the loop goes round in circles. -/
def windows (b : ReceivedBlock) : (fuel : Nat) → (offset : Int) → List Int
  | 0, _ => []
  | fuel + 1, offset =>
    if offset < b.numFrames then offset :: windows b fuel (toInt16 (offset + 16)) else []

/-- The requests for the missing frames of a block. -/
def blockRequests (b : ReceivedBlock) : List DataRequest :=
  if b.receivedFrames > 0 then
    ((windows b 4096 0).map fun offset => ⟨b.sequence, offset, missingBits b offset⟩).filter
      fun r => r.bitset ≠ 0
  else [⟨b.sequence, -1, 0⟩]

/-- The calls of `has_frame` for a block. -/
def blockCalls (b : ReceivedBlock) : List Call :=
  if b.receivedFrames > 0 then
    (windows b 4096 0).flatMap fun offset =>
      (window b offset).map fun i : Nat => .hasFrame (offset + i) b.numFrames
  else []

/-- The loop over the blocks, with the slot of each and the decision whether it
is time to request it. -/
def requestBlocks (limit : Int) : List (Nat × Bool) → (resent : Nat) → SourceDesc → SourceDesc
  | [], _, s => s
  | (slot, due) :: rest, resent, s =>
    let b := s.jitterBuffer.slot slot
    if !b.complete && due then
      let s := { s with
        jitterBuffer := s.jitterBuffer.modify slot (·.update s.elapsedTime)
        asked := (slot, s.elapsedTime) :: s.otherAsked slot
        dataRequests := s.dataRequests ++ blockRequests b
        calls := (blockCalls b).reverse ++ s.calls }
      if (resent : Int) + 1 ≥ limit then s else requestBlocks limit rest (resent + 1) s
    else requestBlocks limit rest resent s

/-- `source_desc::check_missing_blocks`: all blocks but the last. -/
def checkMissingBlocks (s : SourceDesc) (resendEnabled : Bool) (limit : Int) (due : List Bool) :
    SourceDesc :=
  if s.wired then s
  else if s.jitterBuffer.size ≤ 1 ∨ ¬ resendEnabled then s
  else requestBlocks limit ((s.jitterBuffer.indices.take (s.jitterBuffer.size - 1)).zip due) 0 s

end SourceDesc

/-! ## Runs -/

/-- What can happen to a stream: messages, settings, and the parts of `process`.
`setState` is the transition of `process` between streams. -/
inductive SinkAction
  | handleStart (a : SourceDesc.StartArgs)
  | update (u : SourceDesc.UpdateArgs)
  | setState (streamState : StreamState) (stopped underrun : Bool)
  | handleUnderrun
  | addPacket (d : NetPacket)
  | checkMissingBlocks (resendEnabled : Bool) (limit : Int) (due : List Bool)
  | tryDecodeBlock (i : SourceDesc.DecodeInput)

/-- `process` returns at once if there is no decoder. -/
def SourceDesc.step (s : SourceDesc) : SinkAction → SourceDesc
  | .handleStart a => s.handleStart a
  | .update u => if s.decoder.isSome then s.update u else s
  | .setState streamState stopped underrun =>
    if s.decoder.isSome then { s with streamState, stopped, underrun } else s
  | .handleUnderrun => if s.decoder.isSome then s.handleUnderrun else s
  | .addPacket d => if s.decoder.isSome then (s.addPacket d).1 else s
  | .checkMissingBlocks resendEnabled limit due =>
    if s.decoder.isSome then s.checkMissingBlocks resendEnabled limit due else s
  | .tryDecodeBlock i => if s.decoder.isSome then (s.tryDecodeBlock i).1 else s

end Aoo.Stream
