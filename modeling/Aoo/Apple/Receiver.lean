import Aoo.Lib.Buffer
import Aoo.LowLatency.Codec
import Aoo.Net.PingTimer
import Mathlib.Algebra.Order.Ring.Rat

/-!
# The receiver of the bridge

The event handler of `AOOAppleBridge.cpp`. A receiver plays the stream of one source
endpoint: `StreamStart` makes an endpoint the current one if its metadata can be
applied, and every other event is filtered by that endpoint.

`handleReceiverEvent` switches the endpoint before it validates the metadata. When they
are rejected it does not return to the endpoint before: the receiver has none then, it
reports the stream as inactive, and it does not hear the accepted source any more
(`rejected_disturbs`, `deaf_run`).

Numbers are exact. What `AooSink_control` answers is part of the event; the calls of the
sink and the client are a second result.

**Main results.** `endpointOk_run`, `rejected_disturbs`, `deaf_run`.
-/

namespace Aoo.Apple

open Lib

def AOOAppleTransportProfileAutomatic : Int := 0
def AOOAppleTransportProfileDeterministicWired : Int := 1
def AOOAppleTransportProfileAdaptiveWireless : Int := 2

def kMaximumChannelCount : Nat := 64
def kAooDataBinary : Int := 0

def kAooStreamStateInactive : Int := 0
def kAooStreamStateActive : Int := 1
def kAooStreamStateBuffering : Int := 2

/-- `sizeof(AooSockAddrStorage)` -/
def sockAddrStorageSize : Nat := 32

/-- An address of `addrlen` bytes, `none` for a null pointer. -/
structure AooEndpoint where
  address : Option (List UInt8)
  id : Int
  deriving DecidableEq, Repr

structure AooData where
  type : Int
  data : Option (List UInt8)
  deriving DecidableEq, Repr

structure AooFormat where
  numChannels : Int
  sampleRate : Int
  blockSize : Int
  deriving DecidableEq, Repr

/-- `aoo_ntpTimeDuration`, in seconds. -/
def ntpTimeDuration (t1 t2 : UInt64) : ℚ := Net.TimeTag.duration t1 t2

/-- The metrics that events write. -/
structure ReceiverMetrics where
  streamActive : Int := 0
  streamState : Int := kAooStreamStateInactive
  lastError : Option AooError := none
  sourceChannelCount : Int := 0
  sourceSampleRate : Int := 0
  sourceBlockSize : Int := 0
  streamStarts : UInt64 := 0
  streamActiveTransitions : UInt64 := 0
  streamBufferingTransitions : UInt64 := 0
  streamInactiveTransitions : UInt64 := 0
  bufferUnderruns : UInt64 := 0
  bufferOverruns : UInt64 := 0
  droppedBlocks : UInt64 := 0
  resentBlocks : UInt64 := 0
  sourceXRuns : UInt64 := 0
  concealments : UInt64 := 0
  reacquisitions : UInt64 := 0
  incompatibleStreams : UInt64 := 0
  pingEvents : UInt64 := 0
  aooStreamTimeEvents : UInt64 := 0
  sourceLatencyMilliseconds : ℚ := 0
  sinkLatencyMilliseconds : ℚ := 0
  jitterBufferLatencyMilliseconds : ℚ := 0
  rawRoundTripMilliseconds : ℚ := 0
  rawClockOffsetMilliseconds : ℚ := 0
  rawAOOStreamTimeDeltaMilliseconds : ℚ := 0
  rawStreamTimeDeltaMilliseconds : ℚ := 0
  rawPresentationToSinkCallbackDeltaMilliseconds : ℚ := 0
  deriving DecidableEq, Repr

structure AOOAppleReceiver where
  channelCount : Nat
  transportProfile : Int
  expectedStreamConfiguration : AooLowLatencyStreamConfiguration
  activeTransportProfile : Int
  activePcmFormat : Int
  sourceChannelMap : List Int
  sourceChannelMapCount : Nat := 0
  sourceChannelMapRevision : UInt64 := 0
  targetLatencySeconds : ℚ
  sourceEndpointAddress : List UInt8 := List.replicate sockAddrStorageSize 0
  sourceEndpointAddressSize : Nat := 0
  sourceEndpointID : Int := -1
  hasSourceEndpoint : Bool := false
  sourceEndpointFingerprint : UInt64 := 0
  metrics : ReceiverMetrics := {}
  deriving DecidableEq, Repr

/-- What a handler asks the sink and the client to do. -/
inductive SinkCall where
  | setLowLatencyTarget (targetLatencyFrames : UInt32)
  | resetSource (endpoint : AooEndpoint)
  | uninviteSource (endpoint : AooEndpoint)
  | notify
  deriving DecidableEq, Repr

/-- The events of the sink. `format` of a stream start is what the sink answers when it is
asked for the format of the source. -/
inductive ReceiverEvent where
  | streamStart (endpoint : AooEndpoint) (metadata : Option AooData) (format : Option AooFormat)
  | streamStop (endpoint : AooEndpoint)
  | streamState (endpoint : AooEndpoint) (state : Int)
  | sourceRemove (endpoint : AooEndpoint)
  | sourcePing (endpoint : AooEndpoint) (t1 t2 t3 t4 : UInt64)
  | streamTime (endpoint : AooEndpoint) (sourceTime sinkTime : UInt64)
  | formatChange (endpoint : AooEndpoint) (format : Option AooFormat)
  | streamLatency (endpoint : AooEndpoint) (sourceLatency sinkLatency bufferLatency : ℚ)
  | bufferUnderrun (endpoint : AooEndpoint)
  | bufferOverrun (endpoint : AooEndpoint)
  | blockDrop (endpoint : AooEndpoint) (count : Int)
  | blockResend (endpoint : AooEndpoint) (count : Int)
  | blockXRun (endpoint : AooEndpoint) (count : Int)
  | other
  deriving DecidableEq, Repr

/-- The hash of an address and an id. -/
def fingerprintOf (address : List UInt8) (id : Int) : UInt64 :=
  let fingerprint := address.foldl
    (fun fingerprint byte => (fingerprint ^^^ byte.toUInt64) * 1099511628211) 1469598103934665603
  let fingerprint := (fingerprint ^^^ (UInt32.ofInt id).toUInt64) * 1099511628211
  if fingerprint = 0 then 1 else fingerprint

def receiverEndpointFingerprint (endpoint : AooEndpoint) : UInt64 :=
  match endpoint.address with
  | none | some [] => 0
  | some address => fingerprintOf address endpoint.id

namespace AOOAppleReceiver

/-! ## The channel map -/

/-- The loop over the channel map: every channel exists and is used once. -/
def mapChannels (channelCount : Nat) (used : List UInt8) : List UInt8 → Bool
  | [] => true
  | channel :: channels =>
    if channel.toNat ≥ channelCount || used.contains channel then false
    else mapChannels channelCount (channel :: used) channels

/-- Does the receiver take a stream with this configuration? -/
def accepts (r : AOOAppleReceiver) (configuration : AooLowLatencyStreamConfiguration) : Bool :=
  let expected := r.expectedStreamConfiguration
  let acceptsAutomaticProfile := r.transportProfile == AOOAppleTransportProfileAutomatic
  let requiredCapabilities := kRequiredCapabilities |||
    if configuration.profile = kAooLowLatencyProfileAdaptiveWireless
    then kAooLowLatencyCapabilityDeadlineResend else 0
  let count := configuration.channelMapCount.toNat
  !(count == 0 || decide (count > r.channelCount) ||
    configuration.protocolVersion != expected.protocolVersion ||
    (!acceptsAutomaticProfile && configuration.profile != expected.profile) ||
    (!acceptsAutomaticProfile && configuration.pcmFormat != expected.pcmFormat) ||
    decide (configuration.channelCount > expected.channelCount) ||
    configuration.blockFrames != expected.blockFrames ||
    (!acceptsAutomaticProfile && configuration.datagramBytes != expected.datagramBytes) ||
    (acceptsAutomaticProfile && decide (configuration.datagramBytes > expected.datagramBytes)) ||
    configuration.sampleRate != expected.sampleRate ||
    configuration.capabilities.toNat &&& requiredCapabilities != requiredCapabilities) &&
  mapChannels r.channelCount [] (configuration.channelMap.take count)

/-- The configuration in the metadata of a stream that the receiver takes, if there are
metadata; `none` for a stream that it rejects. -/
def negotiate (r : AOOAppleReceiver) (metadata : Option AooData) :
    Option (Option AooLowLatencyStreamConfiguration) :=
  match metadata with
  | none => some none
  | some metadata =>
    if metadata.type ≠ kAooDataBinary then none
    else
      match metadata.data.bind AooLowLatencyStreamConfiguration.decode with
      | none => none
      | some configuration => if r.accepts configuration then some (some configuration) else none

/-- The channels of a configuration. -/
def channelsOf (configuration : AooLowLatencyStreamConfiguration) : List Int :=
  (configuration.channelMap.take configuration.channelMapCount.toNat).map fun c => (c.toNat : Int)

/-- `applyReceiverChannelMap` behind the validation. -/
def applyConfiguration (r : AOOAppleReceiver)
    (negotiated : Option AooLowLatencyStreamConfiguration) :
    AOOAppleReceiver × List SinkCall :=
  let channelMap := (negotiated.map channelsOf).getD []
  let r := { r with
    sourceChannelMapRevision := r.sourceChannelMapRevision + 2
    sourceChannelMap := writeAt r.sourceChannelMap 0 channelMap
    sourceChannelMapCount := channelMap.length }
  match negotiated with
  | none => (r, [])
  | some configuration =>
    let receiverTargetFrames := r.expectedStreamConfiguration.targetLatencyFrames
    ({ r with
      activeTransportProfile := configuration.profile.toNat
      activePcmFormat := configuration.pcmFormat.toNat
      targetLatencySeconds := receiverTargetFrames.toNat / configuration.sampleRate.toNat },
      [.setLowLatencyTarget receiverTargetFrames])

/-! ## The source endpoint -/

def setReceiverSourceEndpoint (r : AOOAppleReceiver) (endpoint : Option AooEndpoint) :
    AOOAppleReceiver :=
  let r := { r with
    sourceEndpointFingerprint := 0
    hasSourceEndpoint := false
    sourceEndpointAddressSize := 0
    sourceEndpointID := -1 }
  match endpoint with
  | none => r
  | some endpoint =>
    match endpoint.address with
    | none | some [] => r
    | some address =>
      if address.length > sockAddrStorageSize then r
      else { r with
        sourceEndpointAddress := writeAt r.sourceEndpointAddress 0 address
        sourceEndpointAddressSize := address.length
        sourceEndpointID := endpoint.id
        hasSourceEndpoint := true
        sourceEndpointFingerprint := fingerprintOf address endpoint.id }

def receiverSourceEndpointMatches (r : AOOAppleReceiver) (endpoint : AooEndpoint) : Bool :=
  match endpoint.address with
  | none | some [] => false
  | some _ => r.sourceEndpointFingerprint == receiverEndpointFingerprint endpoint

def receiverHasSourceEndpoint (r : AOOAppleReceiver) : Bool := r.sourceEndpointFingerprint != 0

def applyReceiverSourceFormat (r : AOOAppleReceiver) (format : Option AooFormat) :
    AOOAppleReceiver :=
  match format with
  | none => r
  | some format => { r with metrics := { r.metrics with
      sourceChannelCount := format.numChannels
      sourceSampleRate := format.sampleRate
      sourceBlockSize := format.blockSize } }

/-! ## The handler -/

def resetTiming (m : ReceiverMetrics) : ReceiverMetrics :=
  { m with
    rawRoundTripMilliseconds := 0
    rawClockOffsetMilliseconds := 0
    rawAOOStreamTimeDeltaMilliseconds := 0
    rawStreamTimeDeltaMilliseconds := 0
    rawPresentationToSinkCallbackDeltaMilliseconds := 0 }

def setInactive (m : ReceiverMetrics) : ReceiverMetrics :=
  { m with streamActive := 0, streamState := kAooStreamStateInactive }

/-- `kAooEventStreamStart` -/
def handleStreamStart (r : AOOAppleReceiver) (endpoint : AooEndpoint)
    (metadata : Option AooData) (format : Option AooFormat) : AOOAppleReceiver × List SinkCall :=
  let r := r.setReceiverSourceEndpoint (some endpoint)
  match r.negotiate metadata with
  | none =>
    let metrics := setInactive { r.metrics with
      lastError := some .badFormat
      incompatibleStreams := r.metrics.incompatibleStreams + 1 }
    (({ r with metrics } : AOOAppleReceiver).setReceiverSourceEndpoint none,
      [.resetSource endpoint, .uninviteSource endpoint, .notify])
  | some negotiated =>
    let (r, calls) := r.applyConfiguration negotiated
    let r := r.applyReceiverSourceFormat format
    let metrics := resetTiming r.metrics
    ({ r with metrics := { metrics with streamStarts := metrics.streamStarts + 1 } }, calls)

/-- `kAooEventStreamState` -/
def handleStreamState (m : ReceiverMetrics) (state : Int) : ReceiverMetrics :=
  let previousState := m.streamState
  let m := { m with
    streamState := state
    streamActive := if state = kAooStreamStateActive then 1 else 0 }
  if state = kAooStreamStateActive then
    { m with streamActiveTransitions := m.streamActiveTransitions + 1 }
  else if state = kAooStreamStateBuffering then
    { m with
      streamBufferingTransitions := m.streamBufferingTransitions + 1
      reacquisitions := if previousState = kAooStreamStateActive
        then m.reacquisitions + 1 else m.reacquisitions }
  else if state = kAooStreamStateInactive then
    { m with streamInactiveTransitions := m.streamInactiveTransitions + 1 }
  else m

/-- `kAooEventSourceRemove` -/
def handleSourceRemove (r : AOOAppleReceiver) : AOOAppleReceiver :=
  let r := { r with metrics := setInactive r.metrics }
  let r := (r.setReceiverSourceEndpoint none).applyConfiguration none
  { r.1 with metrics := resetTiming { r.1.metrics with
      sourceChannelCount := 0
      sourceSampleRate := 0
      sourceBlockSize := 0 } }

/-- `kAooEventSourcePing` -/
def handleSourcePing (m : ReceiverMetrics) (t1 t2 t3 t4 : UInt64) : ReceiverMetrics :=
  let rtt := ntpTimeDuration t1 t4 - ntpTimeDuration t2 t3
  let clockOffset := 1 / 2 * (ntpTimeDuration t1 t2 + ntpTimeDuration t4 t3)
  if rtt ≥ 0 then
    { m with
      rawRoundTripMilliseconds := rtt * 1000
      rawClockOffsetMilliseconds := clockOffset * 1000
      pingEvents := m.pingEvents + 1 }
  else m

/-- `static_cast<uint64_t>(std::max(0, count))` -/
def countOf (count : Int) : UInt64 := UInt64.ofInt (max 0 count)

/-- A change of the metrics by an event of the current source. -/
def fromSource (r : AOOAppleReceiver) (endpoint : AooEndpoint)
    (f : ReceiverMetrics → ReceiverMetrics) : AOOAppleReceiver :=
  if r.receiverSourceEndpointMatches endpoint then { r with metrics := f r.metrics } else r

def handleReceiverEvent (r : AOOAppleReceiver) :
    ReceiverEvent → AOOAppleReceiver × List SinkCall
  | .streamStart endpoint metadata format => r.handleStreamStart endpoint metadata format
  | .streamStop endpoint => (r.fromSource endpoint setInactive, [])
  | .streamState endpoint state => (r.fromSource endpoint (handleStreamState · state), [])
  | .sourceRemove endpoint =>
    (if r.receiverSourceEndpointMatches endpoint then r.handleSourceRemove else r, [])
  | .sourcePing endpoint t1 t2 t3 t4 =>
    (r.fromSource endpoint (handleSourcePing · t1 t2 t3 t4), [])
  | .streamTime endpoint sourceTime sinkTime =>
    (r.fromSource endpoint fun m => { m with
      rawAOOStreamTimeDeltaMilliseconds := ntpTimeDuration sourceTime sinkTime * 1000
      aooStreamTimeEvents := m.aooStreamTimeEvents + 1 }, [])
  | .formatChange endpoint format =>
    (if !r.receiverHasSourceEndpoint || r.receiverSourceEndpointMatches endpoint
      then r.applyReceiverSourceFormat format else r, [])
  | .streamLatency endpoint sourceLatency sinkLatency bufferLatency =>
    (r.fromSource endpoint fun m => { m with
      sourceLatencyMilliseconds := max 0 (sourceLatency * 1000)
      sinkLatencyMilliseconds := max 0 (sinkLatency * 1000)
      jitterBufferLatencyMilliseconds := max 0 (bufferLatency * 1000) }, [])
  | .bufferUnderrun endpoint =>
    (r.fromSource endpoint fun m => { m with bufferUnderruns := m.bufferUnderruns + 1 }, [])
  | .bufferOverrun endpoint =>
    (r.fromSource endpoint fun m => { m with bufferOverruns := m.bufferOverruns + 1 }, [])
  | .blockDrop endpoint count =>
    (r.fromSource endpoint fun m => { m with
      droppedBlocks := m.droppedBlocks + countOf count
      concealments := m.concealments + countOf count }, [])
  | .blockResend endpoint count =>
    (r.fromSource endpoint fun m => { m with
      resentBlocks := m.resentBlocks + countOf count }, [])
  | .blockXRun endpoint count =>
    (r.fromSource endpoint fun m => { m with sourceXRuns := m.sourceXRuns + countOf count }, [])
  | .other => (r, [])

/-- The receiver after an event. -/
def step (r : AOOAppleReceiver) (e : ReceiverEvent) : AOOAppleReceiver :=
  (r.handleReceiverEvent e).1

/-- What an event does: it starts a stream, removes the source, sets the format of the
source, or changes the metrics of the source. -/
theorem step_cases (r : AOOAppleReceiver) (e : ReceiverEvent) :
    (∃ endpoint metadata format, e = .streamStart endpoint metadata format) ∨
      (∃ endpoint, r.step e =
        if r.receiverSourceEndpointMatches endpoint then r.handleSourceRemove else r) ∨
      (∃ endpoint format, r.step e =
        if !r.receiverHasSourceEndpoint || r.receiverSourceEndpointMatches endpoint
        then r.applyReceiverSourceFormat format else r) ∨
      (∃ endpoint f, r.step e = r.fromSource endpoint f) ∨
      r.step e = r := by
  cases e
  case streamStart endpoint metadata format => exact Or.inl ⟨endpoint, metadata, format, rfl⟩
  case sourceRemove endpoint => exact Or.inr (Or.inl ⟨endpoint, rfl⟩)
  case formatChange endpoint format => exact Or.inr (Or.inr (Or.inl ⟨endpoint, format, rfl⟩))
  case other => exact Or.inr (Or.inr (Or.inr (Or.inr rfl)))
  -- the other events change the metrics alone
  all_goals
    simp only [step, handleReceiverEvent]
    exact Or.inr (Or.inr (Or.inr (Or.inl ⟨_, _, rfl⟩)))

/-! ## The current source -/

theorem fingerprintOf_ne_zero (address : List UInt8) (id : Int) :
    fingerprintOf address id ≠ 0 := by
  unfold fingerprintOf
  simp only
  split
  next => decide
  next hne => exact hne

/-- The endpoint is stored together with its fingerprint, or there is neither. -/
structure EndpointOk (r : AOOAppleReceiver) : Prop where
  storage : r.sourceEndpointAddress.length = sockAddrStorageSize
  absent : r.hasSourceEndpoint = false → r.sourceEndpointFingerprint = 0
  present : r.hasSourceEndpoint = true →
    r.sourceEndpointFingerprint = fingerprintOf
      (r.sourceEndpointAddress.take r.sourceEndpointAddressSize) r.sourceEndpointID

variable {r : AOOAppleReceiver}

theorem EndpointOk.setReceiverSourceEndpoint (h : r.EndpointOk) (endpoint : Option AooEndpoint) :
    (r.setReceiverSourceEndpoint endpoint).EndpointOk := by
  have hnone : ∀ address, (address : List UInt8).length = sockAddrStorageSize →
      EndpointOk { r with
        sourceEndpointAddress := address
        sourceEndpointFingerprint := 0
        hasSourceEndpoint := false
        sourceEndpointAddressSize := 0
        sourceEndpointID := -1 } := fun _ hlen => ⟨hlen, fun _ => rfl, nofun⟩
  unfold AOOAppleReceiver.setReceiverSourceEndpoint
  simp only
  split
  next => exact hnone _ h.storage
  next endpoint =>
    split
    next => exact hnone _ h.storage
    next => exact hnone _ h.storage
    next address hnil haddress =>
      split
      next => exact hnone _ h.storage
      next hfits =>
        have hfits : 0 + address.length ≤ r.sourceEndpointAddress.length := by
          rw [h.storage]
          omega
        refine ⟨(writeAt_length hfits).trans h.storage, nofun, fun _ => ?_⟩
        show fingerprintOf address _ =
          fingerprintOf ((writeAt r.sourceEndpointAddress 0 address).take address.length) _
        rw [writeAt, List.take_zero, List.nil_append, List.take_left]

theorem EndpointOk.applyConfiguration (h : r.EndpointOk)
    (negotiated : Option AooLowLatencyStreamConfiguration) :
    (r.applyConfiguration negotiated).1.EndpointOk := by
  cases negotiated <;> exact ⟨h.storage, h.absent, h.present⟩

theorem EndpointOk.metrics (h : r.EndpointOk) (metrics : ReceiverMetrics) :
    EndpointOk { r with metrics } := ⟨h.storage, h.absent, h.present⟩

theorem EndpointOk.applyReceiverSourceFormat (h : r.EndpointOk) (format : Option AooFormat) :
    (r.applyReceiverSourceFormat format).EndpointOk := by
  cases format with
  | none => exact h
  | some format => exact h.metrics _

theorem EndpointOk.step (h : r.EndpointOk) (e : ReceiverEvent) : (r.step e).EndpointOk := by
  rcases r.step_cases e with ⟨endpoint, metadata, format, rfl⟩ | ⟨endpoint, hstep⟩ |
    ⟨endpoint, format, hstep⟩ | ⟨endpoint, f, hstep⟩ | hstep
  · have hset := h.setReceiverSourceEndpoint (some endpoint)
    unfold AOOAppleReceiver.step handleReceiverEvent handleStreamStart
    simp only
    split
    next => exact (hset.metrics _).setReceiverSourceEndpoint none
    next negotiated _ =>
      exact ((hset.applyConfiguration negotiated).applyReceiverSourceFormat format).metrics _
  · rw [hstep]
    split
    next =>
      exact (((h.metrics _).setReceiverSourceEndpoint none).applyConfiguration none).metrics _
    next => exact h
  · rw [hstep]
    split
    next => exact h.applyReceiverSourceFormat format
    next => exact h
  · rw [hstep, fromSource]
    split
    next => exact h.metrics _
    next => exact h
  · rw [hstep]
    exact h

/-- **In every reachable state** the receiver has a source if and only if the fingerprint is
not 0, and then it is that of the stored endpoint. -/
theorem endpointOk_run (h : r.EndpointOk) (es : List ReceiverEvent) :
    (es.foldl step r).EndpointOk :=
  List.foldlRecOn es step h fun _ h e _ => h.step e

/-! ## A rejected stream -/

/-- Without a source no event of a source is heard. -/
theorem not_matches (h : r.sourceEndpointFingerprint = 0) (endpoint : AooEndpoint) :
    r.receiverSourceEndpointMatches endpoint = false := by
  unfold receiverSourceEndpointMatches
  split
  next => rfl
  next => rfl
  next address hnil haddress =>
    have hfingerprint :
        receiverEndpointFingerprint endpoint = fingerprintOf address endpoint.id := by
      unfold receiverEndpointFingerprint
      rw [haddress]
      cases address with
      | nil => exact absurd rfl hnil
      | cons byte bytes => rfl
    rw [h, hfingerprint]
    exact beq_eq_false_iff_ne.mpr (fingerprintOf_ne_zero address endpoint.id).symm

/-- The receiver without the format of its source, which is the one thing that events of
any endpoint can set when there is no source. -/
def exceptFormat (r : AOOAppleReceiver) : AOOAppleReceiver :=
  { r with metrics := { r.metrics with
      sourceChannelCount := 0
      sourceSampleRate := 0
      sourceBlockSize := 0 } }

theorem exceptFormat_applyReceiverSourceFormat (format : Option AooFormat) :
    (r.applyReceiverSourceFormat format).exceptFormat = r.exceptFormat := by
  cases format <;> rfl

theorem exceptFormat_fingerprint {r' : AOOAppleReceiver} (h : r'.exceptFormat = r.exceptFormat) :
    r'.sourceEndpointFingerprint = r.sourceEndpointFingerprint :=
  (congrArg sourceEndpointFingerprint h :)

theorem deaf_step (h : r.sourceEndpointFingerprint = 0) {e : ReceiverEvent}
    (he : ∀ endpoint metadata format, e ≠ .streamStart endpoint metadata format) :
    (r.step e).exceptFormat = r.exceptFormat := by
  rcases r.step_cases e with ⟨endpoint, metadata, format, hstart⟩ | ⟨endpoint, hstep⟩ |
    ⟨endpoint, format, hstep⟩ | ⟨endpoint, f, hstep⟩ | hstep
  · exact absurd hstart (he endpoint metadata format)
  · rw [hstep, not_matches h]
    rfl
  · rw [hstep]
    split
    next => exact exceptFormat_applyReceiverSourceFormat format
    next => rfl
  · rw [hstep, fromSource, not_matches h]
    rfl
  · rw [hstep]

/-- **Until the next start of a stream**, a receiver without a source counts nothing and
leaves the state of the stream as it is. -/
theorem deaf_run (h : r.sourceEndpointFingerprint = 0) (es : List ReceiverEvent)
    (hes : ∀ e ∈ es, ∀ endpoint metadata format, e ≠ .streamStart endpoint metadata format) :
    (es.foldl step r).exceptFormat = r.exceptFormat := by
  refine List.foldlRecOn (motive := fun r' => r'.exceptFormat = r.exceptFormat) es step rfl ?_
  intro r' hr' e he
  exact (deaf_step ((exceptFormat_fingerprint hr').trans h) (hes e he)).trans hr'

theorem setReceiverSourceEndpoint_negotiate (endpoint : Option AooEndpoint)
    (metadata : Option AooData) :
    (r.setReceiverSourceEndpoint endpoint).negotiate metadata = r.negotiate metadata := by
  unfold setReceiverSourceEndpoint
  simp only
  split
  next => rfl
  next =>
    split
    next => rfl
    next => rfl
    next => split <;> rfl

/-- A rejected stream leaves the receiver without a source. -/
theorem rejected_step {metadata : Option AooData} (hreject : r.negotiate metadata = none)
    (endpoint : AooEndpoint) (format : Option AooFormat) :
    (r.step (.streamStart endpoint metadata format)).hasSourceEndpoint = false ∧
      (r.step (.streamStart endpoint metadata format)).sourceEndpointFingerprint = 0 := by
  have hreject : (r.setReceiverSourceEndpoint (some endpoint)).negotiate metadata = none :=
    (setReceiverSourceEndpoint_negotiate _ _).trans hreject
  unfold step handleReceiverEvent handleStreamStart
  simp only [hreject]
  exact ⟨rfl, rfl⟩

/-- The receiver without the metrics that count rejected streams. -/
def besides (r : AOOAppleReceiver) : AOOAppleReceiver :=
  { r with metrics := { r.metrics with lastError := none, incompatibleStreams := 0 } }

/-- The run over `later` is the same with and without `e` in front of it, at each of its
steps. -/
def Undisturbed (r : AOOAppleReceiver) (e : ReceiverEvent) (later : List ReceiverEvent) : Prop :=
  ∀ es, es <+: later → (es.foldl step (r.step e)).besides = (es.foldl step r).besides

/-- **A rejected stream always disturbs the accepted one**: the receiver loses its source. -/
theorem rejected_disturbs (hs : r.hasSourceEndpoint = true) {metadata : Option AooData}
    (hreject : r.negotiate metadata = none) (endpoint : AooEndpoint) (format : Option AooFormat)
    (later : List ReceiverEvent) :
    ¬ Undisturbed r (.streamStart endpoint metadata format) later := by
  intro h
  have hsame : (r.step (.streamStart endpoint metadata format)).hasSourceEndpoint =
      r.hasSourceEndpoint := (congrArg hasSourceEndpoint (h [] List.nil_prefix) :)
  rw [(rejected_step hreject endpoint format).1, hs] at hsame
  exact Bool.false_ne_true hsame

/-- A receiver of stereo streams over a wire, as it is created. -/
def stereo : AOOAppleReceiver where
  channelCount := 2
  transportProfile := AOOAppleTransportProfileDeterministicWired
  expectedStreamConfiguration :=
    ⟨1, 1, 1, 2, 64, 512, 2, 48000, 128, 7, [0, 1] ++ List.replicate 62 0⟩
  activeTransportProfile := AOOAppleTransportProfileDeterministicWired
  activePcmFormat := 1
  sourceChannelMap := [0, 1] ++ List.replicate 62 0
  targetLatencySeconds := 128 / 48000

/-- The source of the receiver and another endpoint. -/
def source : AooEndpoint := ⟨some [16, 2, 39, 15, 10, 0, 0, 1], 1⟩
def stranger : AooEndpoint := ⟨some [16, 2, 39, 15, 10, 0, 0, 2], 1⟩

/-- The receiver plays a stream with the metadata that it expects. -/
def playing : AOOAppleReceiver :=
  [.streamStart source (some ⟨kAooDataBinary, some stereo.expectedStreamConfiguration.bytes⟩)
      (some ⟨2, 48000, 64⟩),
    .streamState source kAooStreamStateActive].foldl step stereo

/-- A stream of the other endpoint with metadata of no bytes. -/
def strange : ReceiverEvent := .streamStart stranger (some ⟨kAooDataBinary, some []⟩) none

theorem rejected_disturbs_playing :
    ¬ Undisturbed playing strange [.bufferUnderrun source, .blockDrop source 3] :=
  rejected_disturbs (by decide +kernel) (by decide +kernel) _ _ _

/-- The stream of the source is active, and its underruns and its dropped blocks are
counted; once the stream of the stranger is rejected it is inactive, and they are not. -/
theorem live_stream_lost :
    let later := [ReceiverEvent.bufferUnderrun source, .blockDrop source 3]
    let r := later.foldl step playing
    let r' := later.foldl step (playing.step strange)
    stranger ≠ source ∧ playing.hasSourceEndpoint = true ∧
      playing.negotiate (some ⟨kAooDataBinary, some []⟩) = none ∧
      (r.metrics.streamActive, r.metrics.bufferUnderruns, r.metrics.concealments) = (1, 1, 3) ∧
      (r'.metrics.streamActive, r'.metrics.bufferUnderruns, r'.metrics.concealments) = (0, 0, 0) ∧
      ¬ Undisturbed playing strange later := by
  refine ⟨by decide, by decide +kernel, by decide +kernel, by decide +kernel, by decide +kernel, ?_⟩
  intro h
  have hactive := (congrArg (fun r => r.metrics.streamActive) (h [] List.nil_prefix) :)
  revert hactive
  decide +kernel

end AOOAppleReceiver

end Aoo.Apple
