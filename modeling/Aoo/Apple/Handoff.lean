import Aoo.Binmsg
import Aoo.Lib.Buffer
import Aoo.Net.PingTimer

/-!
# The handoff of the sender

The audio callback of `AOOAppleBridge.cpp` hands its samples to the worker of the sender.
`enqueueSenderProcessBlock` cuts the frames of its calls into blocks and puts them into
the process queue; a block that finds this queue full is dropped, and only its position goes
into the gap queue. The worker asks `nextSenderProcessTiming` whether one of the queues has
something, sleeps, and then calls `processNextSenderBlock`, which takes the blocks and the gaps
from the two queues and processes what has the smaller position, silence for a gap.

The callback and the worker run at the same time. A step of the model is one load or
store of a queue index by one of them, with the code up to the next one; writing a slot and
processing a block are steps of their own. Indices and positions wrap at 2^64.

Samples are the bits of a float. Times are exact; the time at which a block was enqueued is
only used for metrics and left out, and so are the deadlines for which the worker sleeps. The
product of channel and stride is not wrapped: memory for which an `int` is too small, 8 GB of
samples, is not followed.
-/

namespace Aoo.Apple

open Lib

/-- `kAooErrorWouldBlock` -/
def kAooErrorWouldBlock : AooError := .other 8

def kSenderGapQueueCapacity : Nat := 256
def kMinimumSenderProcessQueueCapacity : Nat := 8
def kDefaultMaximumBlockSize : Int := 4096

def clampedBlockSize (blockSize : Int) : Nat :=
  (min (max blockSize 1) kDefaultMaximumBlockSize).toNat

/-- The bits of a float. -/
abbrev AooSample := UInt32

/-- A float is finite if the bits of its exponent are not all set. -/
def finiteSample (sample : AooSample) : AooSample :=
  if sample &&& 0x7f800000 ≠ 0x7f800000 then sample else 0

def clampedSampleRate (sampleRate : ℚ) : ℚ :=
  if 8000 ≤ sampleRate ∧ sampleRate ≤ 384000 then sampleRate else 48000

/-- `AOOAppleNTPTimeOffsetFrames` -/
def ntpTimeOffsetFrames (timestamp : UInt64) (frameOffset : Int) (sampleRate : ℚ) : UInt64 :=
  if timestamp = 0 ∨ frameOffset = 0 then timestamp
  else
    let duration := Net.TimeTag.fromSeconds (|(frameOffset : ℚ)| / clampedSampleRate sampleRate)
    if frameOffset > 0 then timestamp + duration else timestamp - duration

/-- `channels` are the samples that the channel pointers point to. -/
structure SenderProcessBlock where
  channels : Nat → List AooSample := fun _ => []
  frameCount : Nat := 0
  isSilence : Bool := false
  sourceSamplePosition : Nat := 0
  sourceNtpTime : UInt64 := 0
  sourcePresentationNtpTime : UInt64 := 0
  generation : Nat := 0

structure SenderProcessGap where
  sourceSamplePosition : Nat := 0
  sourceNtpTime : UInt64 := 0
  sourcePresentationNtpTime : UInt64 := 0
  generation : Nat := 0

structure AOOAppleSender where
  sampleRate : Int
  maximumBlockSize : Nat
  streamBlockSize : Nat
  requiredSourceChannelCount : Int
  sourceChannelIndices : List Nat
  pendingChannels : Nat → List AooSample
  pendingFrameCount : Nat := 0
  pendingGeneration : Nat := 0
  pendingIsSilence : Bool := true
  pendingSourceSamplePosition : Nat := 0
  pendingSourceNtpTime : UInt64 := 0
  pendingSourcePresentationNtpTime : UInt64 := 0
  processQueue : List SenderProcessBlock
  processWriteIndex : Nat := 0
  processReadIndex : Nat := 0
  processGapQueue : List SenderProcessGap
  processGapWriteIndex : Nat := 0
  processGapReadIndex : Nat := 0
  streamGeneration : Nat := 0
  enabled : Bool := false
  hasDestination : Bool := false

/-- `a + b` for `uint64_t` -/
def wrapAdd (a b : Nat) : Nat := (a + b) % 2 ^ 64

/-- `a - b` for `uint64_t` -/
def wrapSub (a b : Nat) : Nat := (a + 2 ^ 64 - b) % 2 ^ 64

/-- The arguments of `enqueueSenderProcessBlock`. -/
structure EnqueueCall where
  planarBaseAddress : List AooSample
  channelStride : Nat
  frameOffset : Nat
  frameCount : Nat
  isSilence : Bool
  sourceSamplePosition : Nat
  sourceNtpTime : UInt64
  sourcePresentationNtpTime : UInt64

/-- The calls of the audio callback. -/
inductive SenderCall where
  | planar (planarBaseAddress : Option (List AooSample)) (channelStride frameOffset : Int)
      (channelCount frameCount : Int) (sourceSamplePosition : Nat)
      (sourceNtpTime sourcePresentationNtpTime : UInt64)
  | silence (frameCount : Int) (sourceSamplePosition : Nat)
      (sourceNtpTime sourcePresentationNtpTime : UInt64)

namespace AOOAppleSender

def channelCount (s : AOOAppleSender) : Nat := s.sourceChannelIndices.length

/-- `AOOAppleSenderCreate`, as far as the handoff goes. `std::clamp` wants a maximum that is not
below 16. -/
def create (sourceChannelIndices : List Nat) (sampleRate : ℚ)
    (maximumBlockSize streamBlockSize : Int) : AOOAppleSender :=
  let maximumBlockSize := clampedBlockSize maximumBlockSize
  let streamBlockSize := (min (max streamBlockSize 16) maximumBlockSize).toNat
  let maximumBlocksPerCall := (maximumBlockSize + streamBlockSize - 1) / streamBlockSize
  let channels := fun _ => List.replicate streamBlockSize 0
  { sampleRate := ⌊clampedSampleRate sampleRate + 1 / 2⌋
    maximumBlockSize
    streamBlockSize
    requiredSourceChannelCount :=
      sourceChannelIndices.foldl (fun required channel => max required (channel + 1)) 0
    sourceChannelIndices
    pendingChannels := channels
    processQueue := List.replicate
      (max kMinimumSenderProcessQueueCapacity
        (maximumBlocksPerCall + kMinimumSenderProcessQueueCapacity)) { channels }
    processGapQueue := List.replicate kSenderGapQueueCapacity {} }

/-! ## The producer -/

/-- `AOOAppleSenderProcessPlanarAtTime` and `AOOAppleSenderProcessSilenceAtTime` up to the
call of `enqueueSenderProcessBlock`, or the result without that call. -/
def enter (s : AOOAppleSender) : SenderCall → Except (Except AooError Unit) EnqueueCall
  | .planar planarBaseAddress channelStride frameOffset channelCount frameCount
      sourceSamplePosition sourceNtpTime sourcePresentationNtpTime =>
    match planarBaseAddress with
    | none => .error (.error .badArgument)
    | some planarBaseAddress =>
      if channelStride ≤ 0 ∨ frameOffset < 0 ∨ frameCount ≤ 0 ∨
          channelCount < s.requiredSourceChannelCount ∨
          frameOffset + frameCount > channelStride ∨ sourceNtpTime = 0 ∨
          sourcePresentationNtpTime = 0 then .error (.error .badArgument)
      else if !s.enabled || !s.hasDestination then .error (.ok ())
      else if frameCount > s.maximumBlockSize then .error (.error .badArgument)
      else .ok { planarBaseAddress
                 channelStride := channelStride.toNat
                 frameOffset := frameOffset.toNat
                 frameCount := frameCount.toNat
                 isSilence := false
                 sourceSamplePosition, sourceNtpTime, sourcePresentationNtpTime }
  | .silence frameCount sourceSamplePosition sourceNtpTime sourcePresentationNtpTime =>
    if frameCount ≤ 0 ∨ frameCount > s.maximumBlockSize ∨ sourceNtpTime = 0 ∨
        sourcePresentationNtpTime = 0 then .error (.error .badArgument)
    else if !s.enabled || !s.hasDestination then .error (.ok ())
    else .ok { planarBaseAddress := []
               channelStride := 0
               frameOffset := 0
               frameCount := frameCount.toNat
               isSilence := true
               sourceSamplePosition, sourceNtpTime, sourcePresentationNtpTime }

/-- The start of the loop over the frames: a block of an older generation is given up, and
an empty block begins at the frame. -/
def beginBlock (s : AOOAppleSender) (c : EnqueueCall) (generation consumed : Nat) :
    AOOAppleSender :=
  let s := if s.pendingFrameCount > 0 ∧ s.pendingGeneration ≠ generation
    then { s with pendingFrameCount := 0 } else s
  if s.pendingFrameCount = 0 then
    { s with
      pendingGeneration := generation
      pendingIsSilence := true
      pendingSourceSamplePosition := wrapAdd c.sourceSamplePosition consumed
      pendingSourceNtpTime := ntpTimeOffsetFrames c.sourceNtpTime consumed s.sampleRate
      pendingSourcePresentationNtpTime :=
        ntpTimeOffsetFrames c.sourcePresentationNtpTime consumed s.sampleRate }
  else s

/-- What is copied for one channel. -/
def copied (c : EnqueueCall) (sourceChannel consumed copyFrameCount : Nat) : List AooSample :=
  if c.isSilence then List.replicate copyFrameCount 0
  else (List.range copyFrameCount).map fun frame =>
    finiteSample (c.planarBaseAddress.getD
      (sourceChannel * c.channelStride + c.frameOffset + consumed + frame) 0)

/-- The loop over the channels. -/
def copyFrames (s : AOOAppleSender) (c : EnqueueCall) (consumed copyFrameCount : Nat) :
    AOOAppleSender :=
  { s with
    pendingChannels := fun channel =>
      if channel < s.channelCount then
        writeAt (s.pendingChannels channel) s.pendingFrameCount
          (copied c (s.sourceChannelIndices.getD channel 0) consumed copyFrameCount)
      else s.pendingChannels channel
    pendingIsSilence := s.pendingIsSilence && c.isSilence
    pendingFrameCount := s.pendingFrameCount + copyFrameCount }

/-- The block that is written into a slot. A silent block leaves the samples there as they
are. -/
def pendingBlock (s : AOOAppleSender) (old : SenderProcessBlock) : SenderProcessBlock where
  channels := if s.pendingIsSilence then old.channels else s.pendingChannels
  frameCount := s.streamBlockSize
  isSilence := s.pendingIsSilence
  sourceSamplePosition := s.pendingSourceSamplePosition
  sourceNtpTime := s.pendingSourceNtpTime
  sourcePresentationNtpTime := s.pendingSourcePresentationNtpTime
  generation := s.pendingGeneration

def pendingGap (s : AOOAppleSender) : SenderProcessGap where
  sourceSamplePosition := s.pendingSourceSamplePosition
  sourceNtpTime := s.pendingSourceNtpTime
  sourcePresentationNtpTime := s.pendingSourcePresentationNtpTime
  generation := s.pendingGeneration

end AOOAppleSender

/-- Where the producer stands in the loop over the frames, with the indices that it has
loaded. -/
inductive ProducerStage where
  | copy
  | loadWrite
  | loadRead (writeIndex : Nat)
  | fill (writeIndex : Nat)
  | publish (writeIndex : Nat)
  | loadGapWrite
  | loadGapRead (gapWriteIndex : Nat)
  | fillGap (gapWriteIndex : Nat)
  | publishGap (gapWriteIndex : Nat)
  deriving DecidableEq

/-- The local variables of `enqueueSenderProcessBlock`. -/
structure Enqueueing where
  call : EnqueueCall
  generation : Nat
  consumedFrameCount : Nat := 0
  result : Except AooError Unit := .ok ()
  stage : ProducerStage := .copy

inductive Producer where
  | idle (result : Except AooError Unit)
  | enqueueing (e : Enqueueing)

/-- Where a complete block goes. -/
inductive Fate where
  | queued
  | dropped
  deriving DecidableEq, Repr

namespace AOOAppleSender

/-- A step of the producer, and where a block goes if the step decides it. -/
def produce (s : AOOAppleSender) (e : Enqueueing) : AOOAppleSender × Producer × List Fate :=
  match e.stage with
  | .copy =>
    if e.consumedFrameCount < e.call.frameCount then
      let s := s.beginBlock e.call e.generation e.consumedFrameCount
      let copyFrameCount := min (e.call.frameCount - e.consumedFrameCount)
        (s.streamBlockSize - s.pendingFrameCount)
      let s := s.copyFrames e.call e.consumedFrameCount copyFrameCount
      let stage := if s.pendingFrameCount ≠ s.streamBlockSize then .copy else .loadWrite
      (s, .enqueueing { e with
        consumedFrameCount := e.consumedFrameCount + copyFrameCount, stage }, [])
    else (s, .idle e.result, [])
  | .loadWrite => (s, .enqueueing { e with stage := .loadRead s.processWriteIndex }, [])
  | .loadRead writeIndex =>
    if wrapSub writeIndex s.processReadIndex ≥ s.processQueue.length then
      (s, .enqueueing { e with stage := .loadGapWrite }, [.dropped])
    else (s, .enqueueing { e with stage := .fill writeIndex }, [.queued])
  | .fill writeIndex =>
    let slot := writeIndex % s.processQueue.length
    let block := s.pendingBlock (s.processQueue.getD slot {})
    ({ s with processQueue := s.processQueue.set slot block },
      .enqueueing { e with stage := .publish writeIndex }, [])
  | .publish writeIndex =>
    ({ s with processWriteIndex := wrapAdd writeIndex 1, pendingFrameCount := 0 },
      .enqueueing { e with stage := .copy }, [])
  | .loadGapWrite => (s, .enqueueing { e with stage := .loadGapRead s.processGapWriteIndex }, [])
  | .loadGapRead gapWriteIndex =>
    if wrapSub gapWriteIndex s.processGapReadIndex < s.processGapQueue.length then
      (s, .enqueueing { e with stage := .fillGap gapWriteIndex }, [])
    else ({ s with pendingFrameCount := 0 },
      .enqueueing { e with result := .error kAooErrorWouldBlock, stage := .copy }, [])
  | .fillGap gapWriteIndex =>
    let slot := gapWriteIndex % s.processGapQueue.length
    ({ s with processGapQueue := s.processGapQueue.set slot s.pendingGap },
      .enqueueing { e with stage := .publishGap gapWriteIndex }, [])
  | .publishGap gapWriteIndex =>
    ({ s with processGapWriteIndex := wrapAdd gapWriteIndex 1, pendingFrameCount := 0 },
      .enqueueing { e with result := .error kAooErrorWouldBlock, stage := .copy }, [])

end AOOAppleSender

/-! ## The worker -/

/-- What the worker has chosen, and the index of its slot. -/
structure Chosen where
  processGap : Bool
  index : Nat
  isSilence : Bool
  sourceSamplePosition : Nat
  sourceNtpTime : UInt64
  sourcePresentationNtpTime : UInt64
  generation : Nat

/-- Where the worker stands, with the indices that it has loaded: between two turns of its loop, in
`nextSenderProcessTiming`, behind it, or in `processNextSenderBlock`. -/
inductive Worker where
  | idle (result : Bool)
  | timingLoadWrite (readIndex : Nat)
  | timingLoadGapRead (readIndex writeIndex : Nat)
  | timingLoadGapWrite (readIndex writeIndex gapReadIndex : Nat)
  | timed
  | loadWrite (readIndex : Nat)
  | loadGapRead (readIndex writeIndex : Nat)
  | loadGapWrite (readIndex writeIndex gapReadIndex : Nat)
  | process (chosen : Chosen)
  | release (processGap : Bool) (index : Nat)

/-- The arguments of `AooSource_processLowLatency`. -/
structure ProcessedBlock where
  channels : List (List AooSample)
  frameCount : Nat
  sourceNtpTime : UInt64
  sourceSamplePosition : Nat

namespace AOOAppleSender

def chooseGap (gap : SenderProcessGap) (gapReadIndex : Nat) : Chosen where
  processGap := true
  index := gapReadIndex
  isSilence := true
  sourceSamplePosition := gap.sourceSamplePosition
  sourceNtpTime := gap.sourceNtpTime
  sourcePresentationNtpTime := gap.sourcePresentationNtpTime
  generation := gap.generation

def chooseBlock (block : SenderProcessBlock) (readIndex : Nat) : Chosen where
  processGap := false
  index := readIndex
  isSilence := block.isSilence
  sourceSamplePosition := block.sourceSamplePosition
  sourceNtpTime := block.sourceNtpTime
  sourcePresentationNtpTime := block.sourcePresentationNtpTime
  generation := block.generation

/-- What comes next, by the indices that the worker has loaded. -/
def choose (s : AOOAppleSender) (readIndex writeIndex gapReadIndex gapWriteIndex : Nat) :
    Option Chosen :=
  let block := if readIndex ≠ writeIndex
    then s.processQueue[readIndex % s.processQueue.length]? else none
  let gap := if gapReadIndex ≠ gapWriteIndex
    then s.processGapQueue[gapReadIndex % s.processGapQueue.length]? else none
  match gap, block with
  | none, none => none
  | some gap, none => some (chooseGap gap gapReadIndex)
  | none, some block => some (chooseBlock block readIndex)
  | some gap, some block =>
    if gap.sourceSamplePosition < block.sourceSamplePosition
    then some (chooseGap gap gapReadIndex) else some (chooseBlock block readIndex)

/-- The samples of the chosen block: `silencePointers` or the channel pointers of the slot. -/
def channelsOf (s : AOOAppleSender) (chosen : Chosen) : List (List AooSample) :=
  if chosen.isSilence then
    List.replicate s.channelCount (List.replicate s.streamBlockSize 0)
  else
    let block := s.processQueue.getD (chosen.index % s.processQueue.length) {}
    (List.range s.channelCount).map block.channels

/-- The call of `AooSource_processLowLatency`, if there is one. -/
def processed (s : AOOAppleSender) (chosen : Chosen) : List ProcessedBlock :=
  if chosen.generation = s.streamGeneration && s.enabled && s.hasDestination then
    [{ channels := s.channelsOf chosen
       frameCount := s.streamBlockSize
       sourceNtpTime := chosen.sourceNtpTime
       sourceSamplePosition := chosen.sourceSamplePosition }]
  else []

/-- A step of the worker, and what it processes. -/
def work (s : AOOAppleSender) : Worker → AOOAppleSender × Worker × List ProcessedBlock
  | .idle _ => (s, .timingLoadWrite s.processReadIndex, [])
  | .timingLoadWrite readIndex => (s, .timingLoadGapRead readIndex s.processWriteIndex, [])
  | .timingLoadGapRead readIndex writeIndex =>
    (s, .timingLoadGapWrite readIndex writeIndex s.processGapReadIndex, [])
  | .timingLoadGapWrite readIndex writeIndex gapReadIndex =>
    -- only if there is a block or a gap, `processNextSenderBlock` is called
    if readIndex ≠ writeIndex ∨ gapReadIndex ≠ s.processGapWriteIndex then (s, .timed, [])
    else (s, .idle false, [])
  | .timed => (s, .loadWrite s.processReadIndex, [])
  | .loadWrite readIndex => (s, .loadGapRead readIndex s.processWriteIndex, [])
  | .loadGapRead readIndex writeIndex =>
    (s, .loadGapWrite readIndex writeIndex s.processGapReadIndex, [])
  | .loadGapWrite readIndex writeIndex gapReadIndex =>
    match s.choose readIndex writeIndex gapReadIndex s.processGapWriteIndex with
    | none => (s, .idle false, [])
    | some chosen => (s, .process chosen, [])
  | .process chosen => (s, .release chosen.processGap chosen.index, s.processed chosen)
  | .release true index => ({ s with processGapReadIndex := wrapAdd index 1 }, .idle true, [])
  | .release false index => ({ s with processReadIndex := wrapAdd index 1 }, .idle true, [])

/-- `startSenderProcessThread`, before the thread runs. -/
def startSenderProcessThread (s : AOOAppleSender) : AOOAppleSender :=
  { s with
    processReadIndex := s.processWriteIndex
    processGapReadIndex := s.processGapWriteIndex
    streamGeneration := s.streamGeneration + 1 }

end AOOAppleSender

/-! ## Runs -/

/-- The sender with its two threads, and what can be seen of a run: the calls that have been
accepted, where their blocks went, what has been processed, and whether the gap queue has
ever been full. -/
structure Handoff where
  sender : AOOAppleSender
  producer : Producer := .idle (.ok ())
  worker : Worker := .idle false
  calls : List EnqueueCall := []
  fates : List Fate := []
  processed : List ProcessedBlock := []
  gapQueueWasFull : Bool := false

/-- What can happen next: a call of the callback, a step of one of the threads, or the end of
the stream by `AOOAppleSenderSetEnabled`. -/
inductive HandoffEvent where
  | call (c : SenderCall)
  | producer
  | worker
  | disable

namespace Handoff

def gapQueueFull (s : AOOAppleSender) : Bool :=
  decide (s.processGapQueue.length ≤ wrapSub s.processGapWriteIndex s.processGapReadIndex)

/-- The callback is called again when it has returned. -/
def callback (h : Handoff) (c : SenderCall) : Handoff :=
  match h.producer with
  | .enqueueing _ => h
  | .idle _ =>
    match h.sender.enter c with
    | .error result => { h with producer := .idle result }
    | .ok call => { h with
        producer := .enqueueing { call, generation := h.sender.streamGeneration }
        calls := h.calls ++ [call] }

def produce (h : Handoff) : Handoff :=
  match h.producer with
  | .idle _ => h
  | .enqueueing e =>
    let (sender, producer, fates) := h.sender.produce e
    { h with
      sender, producer
      fates := h.fates ++ fates
      gapQueueWasFull := h.gapQueueWasFull || gapQueueFull sender }

def work (h : Handoff) : Handoff :=
  let (sender, worker, processed) := h.sender.work h.worker
  { h with sender, worker, processed := h.processed ++ processed }

def step (h : Handoff) : HandoffEvent → Handoff
  | .call c => h.callback c
  | .producer => h.produce
  | .worker => h.work
  | .disable => { h with sender := { h.sender with enabled := false } }

/-- A stream begins. It is enabled from the start: until it is, calls return at once and the
worker finds both queues empty. -/
def start (s : AOOAppleSender) : Handoff where
  sender := { s.startSenderProcessThread with enabled := true, hasDestination := true }

end Handoff

end Aoo.Apple
