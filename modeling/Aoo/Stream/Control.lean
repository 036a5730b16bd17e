import Aoo.Lib.Rounding
import Aoo.Lib.Run
import Aoo.Stream.Messages

/-!
# The control side of a source

What decides in `source.cpp` whether something is sent, and to whom: the settings of `setup()`
and of the format, the stream state, the sinks with their stream ids and start flags, the
requests, and the stages of `send()` with their guards. The audio is in `Stream.Clock`, the
blocks in `Stream.Emission`, the history in `Stream.History`; here they are counted only, and what
resampler, codec and history answer is an input.

A missing format is dereferenced where the code does not ask for it, and a zero divides where the
code does not ask for that. `crashed` is set by the first such fault, and the model ends there: a
null pointer ends the program, and what infinities a division of floats leaves behind is not
followed. Every operation on a `double` is rounded, and so is what is stored in a `float`; a
number of blocks that no `int` can hold is not cut. `log` is a record of what was sent and of the
sinks that were activated and deactivated.
-/

namespace Aoo.Stream.Control

open Lib

/-! ## The state -/

/-- `format_`, as the setup of an encoder leaves it: block size and sample rate are
validated. -/
structure Format where
  blockSize : Nat
  sampleRate : Nat
  blockSize_pos : 0 < blockSize
  sampleRate_pos : 0 < sampleRate
  deriving DecidableEq, Repr

/-- `stream_state_`; `stop` has the sample offset. -/
inductive State
  | idle
  | start
  | run
  | stop (offset : Int)
  deriving DecidableEq, Repr

/-- `sink_desc` -/
structure Sink where
  ep : Nat
  streamId : Int
  needStart : Bool := false
  dataRequests : List DataRequest := []
  deriving DecidableEq, Repr

def Sink.isActive (s : Sink) : Bool := decide (s.streamId ≠ kAooIdInvalid)

/-- `sink_desc::start`; `ids` are the new random ids. -/
def Sink.start (ids : Nat → Nat) (s : Sink) : Sink :=
  if s.isActive then { s with dataRequests := [], streamId := ids s.ep, needStart := true }
  else { s with dataRequests := [] }

/-- `sink_request` -/
inductive Request
  | stop (ep : Nat) (stream offset : Int)
  | decline (ep : Nat) (token : Int)
  deriving DecidableEq, Repr

/-- The messages of `send()`. One `data` message stands for all packets of a block. -/
inductive Msg
  | start (ep : Nat) (streamId seqStart : Int) (format : Format)
  | stop (ep : Nat) (stream lastSeq offset : Int)
  | decline (ep : Nat) (token : Int)
  | data (ep : Nat) (streamId : Int)
  deriving DecidableEq, Repr

/-- What is recorded. -/
inductive Note
  | activated (ep : Nat)
  | deactivated (ep : Nat)
  | sent (m : Msg)
  deriving DecidableEq, Repr

/-- `Source`. The audio queue is the number of blocks in it. -/
structure Source where
  buffersize : ℚ
  resendBuffersize : ℚ
  ttInterval : ℚ
  flags : Nat := 0
  nchannels : Int := 0
  blocksize : Int := 0
  samplerate : Int := 0
  format : Option Format := none
  encoder : Bool := false
  sequence : Int := kAooIdInvalid
  state : State := .idle
  streamSamples : ℚ := 0
  xrunblocks : ℚ := 0
  needStart : Bool := false
  needResetTimer : Bool := false
  ratio : ℚ := 1
  audioQueue : Nat := 0
  audioCapacity : Nat := 0
  historyCapacity : Nat := 0
  sinks : List Sink := []
  requests : List Request := []
  crashed : Bool := false
  log : List Note := []

namespace Source

def isRunning (s : Source) : Bool := decide (s.state = .run)

/-- A fault. -/
def crash (s : Source) : Source := { s with crashed := true }

/-! ## Settings -/

/-- `div` with the remainder rounded up. -/
def ceilDiv (n : Int) (d : Nat) : Nat := (n / d + if n % d ≠ 0 then 1 else 0).toNat

/-- `update_audio_queue`, which divides by the block size. -/
def updateAudioQueue (s : Source) : Source :=
  if s.encoder ∧ s.samplerate > 0 then
    match s.format with
    | none => s.crash
    | some f =>
      if s.blocksize = 0 then s.crash
      else
        let resample := double (f.sampleRate / s.samplerate)
        let reblock := double (f.blockSize / s.blocksize)
        { s with
          audioQueue := 0
          audioCapacity := max
            (ceilDiv (trunc (double (s.buffersize * s.samplerate))) f.blockSize)
            ⌈double (resample / reblock)⌉.toNat }
  else s

/-- `update_resampler` -/
def updateResampler (s : Source) : Source :=
  match s.format with
  | none => s
  | some f =>
    if s.samplerate > 0 then { s with ratio := double (f.sampleRate / s.samplerate) } else s

/-- `update_historybuffer` -/
def updateHistoryBuffer (s : Source) : Source :=
  if s.encoder then
    match s.format with
    | none => s.crash
    | some f =>
      { s with
        historyCapacity :=
          ceilDiv (trunc (float (s.resendBuffersize * float f.sampleRate))) f.blockSize }
  else s

/-- `restart_stream` -/
def restartStream (s : Source) : Source :=
  if s.state = .run then { s with state := .start } else s

/-- The part of `setup` behind the changes, if there is an encoder. -/
def reconfigure (s : Source) : Source :=
  { s.updateAudioQueue.updateResampler.updateHistoryBuffer with sequence := kAooIdInvalid }

/-- `setup`. The sample rate is cut to an integer, and the block size to 16 bits. -/
def setup (s : Source) (nchannels : Int) (samplerate : ℚ) (blocksize : Int) (flags : Nat) :
    Source :=
  if nchannels ≥ 0 ∧ samplerate > 0 ∧ blocksize > 0 then
    if nchannels ≠ s.nchannels ∨ samplerate ≠ s.samplerate ∨ blocksize ≠ s.blocksize ∨
        flags ≠ s.flags then
      let s := { s with
        flags
        nchannels := toInt16 nchannels
        blocksize := toInt16 blocksize
        samplerate := trunc samplerate }
      { (if s.encoder then s.reconfigure else s).restartStream with needResetTimer := true }
    else { s with needResetTimer := true }
  else s

/-- What `find_codec` and `AooEncoder_setup` say to a format. -/
inductive FormatResult
  | unsupported
  | refused
  | accepted (f : Format)

/-- `set_format` -/
def setFormat (s : Source) : FormatResult → Source
  | .unsupported => s
  | .refused => { s with encoder := false }
  | .accepted f => { s with encoder := true, format := some f }.reconfigure.restartStream

/-! ## The stream -/

/-- `startStream` -/
def startStream (s : Source) : Source := { s with state := .start }

/-- `stopStream` -/
def stopStream (s : Source) (sampleOffset : Int) : Source := { s with state := .stop sampleOffset }

/-- `make_new_stream` -/
def makeNewStream (s : Source) (ids : Nat → Nat) : Source :=
  { s with
    sequence := 0
    xrunblocks := 0
    needResetTimer := true
    audioQueue := 0
    streamSamples := 0
    sinks := s.sinks.map (Sink.start ids)
    needStart := true }

/-- `add_xrun`, which divides by the block size. The sum is a `double`, the field a `float`. -/
def addXrun (s : Source) (nsamples : Int) : Source :=
  if s.blocksize = 0 then s.crash
  else
    let nblocks := double (nsamples / s.blocksize)
    { s with xrunblocks := float (double (s.xrunblocks + nblocks)) }

/-- `handle_xrun` -/
def handleXrun (s : Source) (nsamples : Int) : Source :=
  { s.addXrun nsamples with needResetTimer := true }

/-- What a call of `process` meets: whether it gets the lock, once for a new stream and once for
the audio, and how many blocks the resampler has for the audio queue until it is full. -/
structure ProcessInput where
  nsamples : Int
  locked : Bool
  shared : Bool
  dynamicResampling : Bool
  blocks : Nat
  overflow : Bool
  ids : Nat → Nat

/-- The timer of `process`. Its filter divides by the sample rate. -/
def updateTimer (s : Source) : Source :=
  if s.needResetTimer then
    if s.samplerate = 0 then s.crash else { s with needResetTimer := false }
  else s

/-- `process` of a running stream. -/
def processAudio (s : Source) (i : ProcessInput) : Source :=
  let s := s.updateTimer
  if s.crashed then s
  else if !i.shared then s.addXrun i.nsamples
  else if !s.encoder then s
  else
    match s.format with
    | none => s.crash
    | some _ =>
      if i.dynamicResampling ∧ s.samplerate = 0 then s.crash
      else
        let s := { s with audioQueue := min s.audioCapacity (s.audioQueue + i.blocks) }
        if i.overflow then s.addXrun i.nsamples else s

/-- `process` -/
def process (s : Source) (i : ProcessInput) : Source :=
  match s.state with
  | .idle => s
  | .stop offset =>
    { s with
      requests := s.requests ++ (s.sinks.filter Sink.isActive).map fun x =>
        .stop x.ep x.streamId offset
      state := .idle }
  | .start =>
    if i.locked then ({ s with state := .run }.makeNewStream i.ids).processAudio i else s
  | .run => s.processAudio i

/-! ## The sinks -/

/-- `find_sink` -/
def findSink (s : Source) (ep : Nat) : Option Sink := s.sinks.find? fun x => decide (x.ep = ep)

/-- A sink that has been found is changed. -/
def setSink (s : Source) (ep : Nat) (f : Sink → Sink) : Source :=
  { s with sinks := s.sinks.map fun x => if x.ep = ep then f x else x }

def pushRequest (s : Source) (r : Request) : Source := { s with requests := s.requests ++ [r] }

def note (s : Source) (n : Note) : Source := { s with log := s.log ++ [n] }

/-- The `notify_start` of a sink and of the source. -/
def notifyStart (s : Source) (ep : Nat) : Source :=
  { s.setSink ep fun x => { x with needStart := true } with needStart := true }

/-- A sink gets a stream id, and is announced if the stream is running. -/
def enable (s : Source) (ep : Nat) (id : Int) : Source :=
  let s := (s.setSink ep fun x => { x with streamId := id }).note (.activated ep)
  if s.isRunning then s.notifyStart ep else s

/-- A sink loses its stream id, and `stream` is stopped if the stream is running. -/
def disable (s : Source) (ep : Nat) (stream : Int) : Source :=
  let s := (s.setSink ep fun x => { x with streamId := kAooIdInvalid }).note (.deactivated ep)
  if s.isRunning then s.pushRequest (.stop ep stream 0) else s

/-- `addSink` with `do_add_sink`; `id` is the new random id. -/
def addSink (s : Source) (ep : Nat) (active : Bool) (id : Nat) : Source :=
  if (s.findSink ep).isSome then s
  else
    let s := { s with sinks := ⟨ep, if active then id else kAooIdInvalid, false, []⟩ :: s.sinks }
    if active then
      let s := s.note (.activated ep)
      if s.isRunning then s.notifyStart ep else s
    else s

/-- `sink_desc::activate` -/
def activate (s : Source) (ep : Nat) (b : Bool) (id : Nat) : Source :=
  match s.findSink ep with
  | none => s
  | some x => if b then s.enable ep id else s.disable ep x.streamId

/-- `handleInvite` with `sink_desc::handle_invite` -/
def handleInvite (s : Source) (ep : Nat) (token : Int) (accept : Bool) : Source :=
  match s.findSink ep with
  | none => s
  | some _ => if accept then s.enable ep token else s.pushRequest (.decline ep token)

/-- `handleUninvite` with `sink_desc::handle_uninvite` -/
def handleUninvite (s : Source) (ep : Nat) (token : Int) (accept : Bool) : Source :=
  match s.findSink ep with
  | none => s
  | some _ => if accept then s.disable ep token else s

/-- `handle_start_request` -/
def handleStartRequest (s : Source) (ep : Nat) : Source :=
  match s.findSink ep with
  | none => s
  | some x => if x.isActive then s.notifyStart ep else s

/-- `handle_stop_request` -/
def handleStopRequest (s : Source) (ep : Nat) (stream : Int) : Source :=
  match s.findSink ep with
  | none => s
  | some x =>
    if s.state = .idle ∨ ¬ x.isActive then s.pushRequest (.stop ep stream 0) else s

/-- `handle_data_request` -/
def handleDataRequest (s : Source) (ep : Nat) (streamId : Int) (rs : List DataRequest) : Source :=
  if s.resendBuffersize ≤ 0 then s
  else
    match s.findSink ep with
    | none => s
    | some x =>
      if x.streamId = streamId ∧ x.isActive then
        s.setSink ep fun x => { x with dataRequests := x.dataRequests ++ rs }
      else s

/-- `handle_uninvite` of a message: the user decides about a stream that is there, for any other
`/stop` is sent again. -/
def handleUninviteMessage (s : Source) (ep : Nat) (token : Int) : Source :=
  match s.findSink ep with
  | none => s.pushRequest (.stop ep token 0)
  | some x =>
    if x.isActive ∧ x.streamId = token then s else s.pushRequest (.stop ep token 0)

/-! ## `send` -/

/-- What a call of `send` meets: whether the format can be serialized, which blocks the encoder
takes, by the number that is still in the queue, and how many frames `history_` has for a
request. -/
structure SendInput where
  serializes : Bool
  encodes : Nat → Bool
  frames : DataRequest → Nat

def sendAll (s : Source) (ms : List Msg) : Source := { s with log := s.log ++ ms.map .sent }

/-- The message of a request. -/
def requestMsg (s : Source) : Request → Msg
  | .stop ep stream offset => .stop ep stream s.sequence (trunc (double (offset * s.ratio)))
  | .decline ep token => .decline ep token

/-- `dispatch_requests` -/
def dispatchRequests (s : Source) : Source :=
  { s.sendAll (s.requests.map s.requestMsg) with requests := [] }

/-- A stream that has an encoder and a sequence number. -/
def hasStream (s : Source) : Bool := s.encoder && decide (s.sequence ≠ kAooIdInvalid)

/-- `send_start` comes to its messages. -/
def announces (s : Source) : Bool := s.needStart && decide (s.audioQueue ≠ 0) && s.hasStream

/-- `send_start` -/
def sendStart (s : Source) (serializes : Bool) : Source :=
  if !s.announces then s
  else
    match s.format with
    | none => s.crash
    | some f =>
      let s := { s with needStart := false }
      if !serializes then s
      else
        { s.sendAll ((s.sinks.filter Sink.needStart).map fun x =>
            .start x.ep x.streamId s.sequence f) with
          sinks := s.sinks.map fun x => { x with needStart := false } }

/-- The sinks that get a block. -/
def activeSinks (s : Source) : List Sink := s.sinks.filter Sink.isActive

/-- A block is sent to the active sinks. -/
def sendBlock (s : Source) : Source :=
  { s.sendAll (s.activeSinks.map fun x => .data x.ep x.streamId) with
    sequence := nextSequence s.sequence }

/-- The loop of `send_xruns`. -/
def sendEmptyBlocks : Nat → Source → Source
  | 0, s => s
  | n + 1, s => if !s.hasStream then s else sendEmptyBlocks n s.sendBlock

/-- `send_xruns`. Nothing asks for the format. -/
def sendXruns (s : Source) : Source :=
  if s.xrunblocks ≤ 1 / 2 then s
  else
    match s.format with
    | none => s.crash
    | some f =>
      let convert := double (double (s.ratio * s.blocksize) / f.blockSize)
      let streamBlocks := ⌊double (s.xrunblocks * convert)⌋
      if convert = 0 then s.crash
      else
        let processBlocks := double (streamBlocks / convert)
        let diff := double (processBlocks - s.xrunblocks)
        let s := { s with
          xrunblocks := float (0 - diff)
          streamSamples := double (s.streamSamples + double (processBlocks * s.blocksize)) }
        if s.activeSinks.isEmpty then s else sendEmptyBlocks streamBlocks.toNat s

/-- The time tag of a block is due. -/
def timeTagDue (s : Source) (f : Format) : Prop :=
  s.ttInterval > 0 ∧ s.sequence %
    max 1 (trunc (double (double (s.ttInterval * f.sampleRate) / f.blockSize))) = 0

instance (s : Source) (f : Format) : Decidable (s.timeTagDue f) :=
  inferInstanceAs (Decidable (_ ∧ _))

/-- The loop of `send_data`, with the number of blocks in the queue. Without sinks, the
blocks are dropped. -/
def sendBlocks (encodes : Nat → Bool) : Nat → Source → Source
  | 0, s => s
  | n + 1, s =>
    if !s.hasStream then s
    else
      match s.format with
      | none => s.crash
      | some f =>
        if s.ratio = 0 ∨ s.timeTagDue f ∧ s.samplerate = 0 then s.crash
        else
          let s := { s with
            streamSamples := double (s.streamSamples + double (f.blockSize / s.ratio))
            audioQueue := n }
          if s.activeSinks.isEmpty then sendBlocks encodes n s
          else if !encodes n then s
          else sendBlocks encodes n s.sendBlock

/-- The frames of a sink that are resent. -/
def resentMsgs (frames : DataRequest → Nat) (x : Sink) : List Msg :=
  x.dataRequests.flatMap fun r => List.replicate (frames r) (.data x.ep x.streamId)

/-- `resend_data` -/
def resendData (s : Source) (frames : DataRequest → Nat) : Source :=
  if s.historyCapacity = 0 then s
  else
    { s.sendAll (s.sinks.flatMap (resentMsgs frames)) with
      sinks := s.sinks.map fun x => { x with dataRequests := [] } }

/-- What follows a stage, unless that had a fault. -/
def andThen (s : Source) (f : Source → Source) : Source := if s.crashed then s else f s

/-- There is nothing to send. -/
def isSilent (s : Source) : Bool := decide (s.state ≠ .run) && s.requests.isEmpty

/-- `send` -/
def send (s : Source) (i : SendInput) : Source :=
  if s.isSilent then s
  else
    (((s.dispatchRequests.sendStart i.serializes).andThen sendXruns).andThen fun s =>
      sendBlocks i.encodes s.audioQueue s).andThen fun s => s.resendData i.frames

end Source

/-! ## Runs -/

/-- What can happen to a source. -/
inductive Action
  | setup (nchannels : Int) (samplerate : ℚ) (blocksize : Int) (flags : Nat)
  | setFormat (result : Source.FormatResult)
  | startStream
  | stopStream (sampleOffset : Int)
  | process (i : Source.ProcessInput)
  | reportXRun (nsamples : Int)
  | addSink (ep : Nat) (active : Bool) (id : Nat)
  | activate (ep : Nat) (b : Bool) (id : Nat)
  | handleInvite (ep : Nat) (token : Int) (accept : Bool)
  | handleUninvite (ep : Nat) (token : Int) (accept : Bool)
  | handleStartRequest (ep : Nat)
  | handleStopRequest (ep : Nat) (stream : Int)
  | handleUninviteMessage (ep : Nat) (token : Int)
  | handleDataRequest (ep : Nat) (streamId : Int) (rs : List DataRequest)
  | send (i : Source.SendInput)

/-- After a fault nothing is modelled. -/
def Source.step (s : Source) (a : Action) : Source :=
  s.andThen fun s =>
    match a with
    | .setup nchannels samplerate blocksize flags => s.setup nchannels samplerate blocksize flags
    | .setFormat result => s.setFormat result
    | .startStream => s.startStream
    | .stopStream sampleOffset => s.stopStream sampleOffset
    | .process i => s.process i
    | .reportXRun nsamples => s.handleXrun nsamples
    | .addSink ep active id => s.addSink ep active id
    | .activate ep b id => s.activate ep b id
    | .handleInvite ep token accept => s.handleInvite ep token accept
    | .handleUninvite ep token accept => s.handleUninvite ep token accept
    | .handleStartRequest ep => s.handleStartRequest ep
    | .handleStopRequest ep stream => s.handleStopRequest ep stream
    | .handleUninviteMessage ep token => s.handleUninviteMessage ep token
    | .handleDataRequest ep streamId rs => s.handleDataRequest ep streamId rs
    | .send i => s.send i

/-- A source with its settings. -/
def Source.new (buffersize resendBuffersize ttInterval : ℚ) : Source :=
  { buffersize, resendBuffersize, ttInterval }

end Aoo.Stream.Control
