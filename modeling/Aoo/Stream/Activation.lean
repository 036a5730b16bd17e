import Aoo.Stream.Buffering
import Aoo.Stream.Session

/-!
# When a stream becomes active

When the buffering is done, the stream is active, but the event says so only at the position where
the stream starts, which may be many calls of `process()` later. `stream_start_` keeps the position
until then. A restart, an underrun with new packets and an overrun take it back (`reset_stream`).
A higher latency target and four missing blocks in a row do not, though the stream buffers
again; nor does the end of the blocks, after which samples may still be there. A position that is
negative is never reported.

`Playback` is a session with its counters. A call of `process()` is a sequence of steps: it enters
and takes the packets, decodes blocks, each in the two halves of `try_decode_block`, and reads
samples. The steps of a block are `tryDecodeBlock` (`returned_steps`). Meanwhile messages may
arrive; those that need the lock wait. The time that a stream is active, and that it is not, is
an `Episode`.

**Main result** (`reported_run`): if no pending start is left behind and all positions fit, the
event is only reported by an active stream, and exactly once by one that gets to its
position.
-/

namespace Aoo.Stream

open Lib

/-! ## The state -/

/-- A call of `process()` that gave samples: the time of the first, their number, the offset
of the event `kAooStreamStateActive`, if there was one, and the stream state then. -/
structure Heard where
  start : Int
  nsamples : Nat
  event : Option Int
  state : StreamState
  deriving DecidableEq, Repr

/-- What was heard since the stream has become active at a position, or, without a position, while
it is not active. -/
structure Episode where
  position : Option ℚ := none
  heard : List Heard := []
  deriving DecidableEq, Repr

/-- Where `process()` is; `reading` is its loop. -/
inductive Phase
  | outside
  | reading
  | buffering (i : CallInput)
  | decoding (i : CallInput)

/-- `source_desc` with its counters. The episodes are a record. -/
structure Playback where
  session : Session := {}
  counters : SampleCounters := ⟨0, 0, -1, 0, 0, 0, 0⟩
  xrunblocks : ℚ := 0
  phase : Phase := .outside
  episode : Episode := {}
  past : List Episode := []

/-- `reset_stream` -/
def SampleCounters.resetStream (c : SampleCounters) : SampleCounters :=
  { c with processSamples := 0, streamSamples := 0, streamStart := -1 }

/-! ## Packets -/

/-- A new block does not fit in the jitter buffer any more. -/
def SourceDesc.tooFar (s : SourceDesc) (seq : Int) : Bool :=
  !decide (seq ≤ s.jitterBuffer.lastPushed) &&
    (decide (s.jitterBuffer.lastPushed ≠ JitterBuffer.sentinel) &&
      decide (SourceDesc.toInt32 (seq - s.jitterBuffer.lastPushed) >
        (s.jitterBuffer.capacity : Int) - s.jitterBuffer.size))

/-- `add_packet` comes to `handle_overrun`. -/
def SourceDesc.overruns (s : SourceDesc) (d : NetPacket) : Bool :=
  if d.streamId ≠ s.streamId then false
  else if s.lowLatency.isSome ∧ d.absoluteSamplePosition + UInt64.ofNat d.blockFrames.toNat ≤
      s.lastAbsoluteSamplePosition then false
  else
    match s.checkWrap d.sequence with
    | none => false
    | some s =>
      match s.jitterBuffer.find d.sequence with
      | none => s.tooFar d.sequence
      | some _ => false

namespace Counted

/-- `source_desc::handle_underrun` -/
def handleUnderrun (s : Counted) : Counted := ⟨s.desc.handleUnderrun, s.counters.resetStream⟩

/-- `source_desc::add_packet`, where `handle_overrun` resets the counters. -/
def addPacket (s : Counted) (d : NetPacket) : Counted where
  desc := (s.desc.addPacket d).1
  counters := if s.desc.overruns d then s.counters.resetStream else s.counters

/-- The packets of the queue go to the jitter buffer. -/
def drainQueue (s : Counted) (queue : List NetPacket) : Counted :=
  if queue.isEmpty then s
  else queue.foldl addPacket (if s.desc.underrun then s.handleUnderrun else s)

end Counted

/-! ## Blocks -/

namespace SourceDesc

/-- A new latency target makes an active stream buffer again. -/
def raises (s : SourceDesc) (target : UInt32) : Bool :=
  match s.lowLatency with
  | none => false
  | some c =>
    decide (target > 0 ∧ target ≠ c.targetLatencyFrames) &&
      decide (lowLatencyResidentBlocks target.toNat s.frameSize > s.latencyBlocks ∧
        s.streamState = .active)

/-- The fourth block in a row is missing, which makes a stream buffer again. -/
def missesFourth (s : SourceDesc) (i : DecodeInput) : Bool :=
  s.trimmed.lowLatency.isSome && i.written && decide (3 ≤ s.trimmed.consecutiveMissingBlocks) &&
    if s.trimmed.jitterBuffer.empty then decide (s.trimmed.streamState = .active)
    else !s.trimmed.jitterBuffer.front.complete

end SourceDesc

/-! ## Steps -/

/-- What `update` and `handle_start` compute from the settings and the message, in samples of the
sink. -/
structure StartTiming where
  latencySamples : Int
  sourceCodecDelay : Int
  sinkCodecDelay : Int
  sampleOffset : Int

/-- The arguments of `check_missing_blocks`. -/
structure EnterInput where
  resendEnabled : Bool
  limit : Int
  due : List Bool

inductive PlaybackAction
  | handleStart (a : SourceDesc.StartArgs) (t : StartTiming)
  | reset (u : SourceDesc.UpdateArgs) (latencySamples : Int)
  | handleStop (stream : Int)
  | handleDecline (token : Int)
  | handleData (d : NetPacket) (timedOut : Bool)
  | invite (token : Int)
  | uninvite
  | inviteTimeout
  | addXrun (nblocks : ℚ)
  | enter (p : EnterInput)
  | tryDecode (i : CallInput)
  | buffer
  | decode
  | read (nsamples : Nat) (nsamples_pos : 0 < nsamples)

namespace Playback

def desc (s : Playback) : SourceDesc := s.session.desc

def streamState (s : Playback) : StreamState := s.session.desc.streamState

/-- The stream with its counters. -/
def stream (s : Playback) : Counted := ⟨s.session.desc, s.counters⟩

def setStream (s : Playback) (c : Counted) : Playback :=
  { s with session := { s.session with desc := c.desc }, counters := c.counters }

/-- A `/start` message takes effect, and the decoder takes its format. -/
def starts (s : Playback) (a : SourceDesc.StartArgs) : Bool :=
  !decide (s.session.state = .invite ∧ a.streamId ≠ s.session.inviteToken) &&
    !decide (a.streamId = s.desc.streamId) && (s.desc.handleStart a).decoder.isSome

/-- `source_desc::handle_start` -/
def handleStart (s : Playback) (a : SourceDesc.StartArgs) (t : StartTiming) : Playback :=
  { s with
    session := s.session.handleStart a
    counters :=
      if s.starts a then
        { s.counters.resetStream with
          latencySamples := t.latencySamples
          sourceCodecDelay := t.sourceCodecDelay
          sinkCodecDelay := t.sinkCodecDelay
          sampleOffset := t.sampleOffset }
      else s.counters }

/-- `source_desc::reset` -/
def reset (s : Playback) (u : SourceDesc.UpdateArgs) (latencySamples : Int) : Playback :=
  { s with
    session := s.session.reset u
    counters :=
      if s.desc.decoder.isSome then { s.counters.resetStream with latencySamples }
      else s.counters }

/-- `process` behind the transitions of the state, up to the loop that reads samples. -/
def fill (s : Playback) (p : EnterInput) : Playback :=
  let desc := if s.session.didUpdate then { s.desc with streamState := .buffering } else s.desc
  let c := Counted.drainQueue ⟨desc, s.counters⟩ s.session.packetQueue
  { s with
    session := { s.session with
      desc := c.desc.checkMissingBlocks p.resendEnabled p.limit p.due
      didUpdate := false
      packetQueue := [] }
    counters := c.counters
    xrunblocks := if s.session.didUpdate then 0 else s.xrunblocks
    phase := .reading }

/-- The transitions of the state in `process`. -/
def enter (s : Playback) (p : EnterInput) : Playback :=
  if s.desc.decoder.isSome then
    match s.session.state with
    | .start => { s with session := s.session.begin }.fill p
    | .stop =>
      { s with session := { s.session with
          desc := { s.desc with stopped := true }, state := .run } }.fill p
    | .run | .uninvite => s.fill p
    | .invite | .timeout | .idle =>
      { s with session := { s.session with desc := { s.desc with streamState := .inactive } } }
  else s

/-- `on_underrun`, which ends `process`. -/
def underrun (s : Playback) : Playback :=
  { s with session := s.session.onUnderrun, phase := .outside }

/-- Blocks are decoded until one is not there. -/
def continued (s : Playback) (result : Bool) : Playback :=
  if result then { s with phase := .reading } else s.underrun

/-- The buffering in `try_decode_block`. When it is done, the stream is active from its position
on. -/
def buffer (convert : ℚ → Int) (s : Playback) (i : CallInput) : Playback :=
  if s.streamState = .buffering then
    match s.desc.buffer (s.stream.decodeInput convert i) with
    | (desc, some result) => (s.setStream ⟨desc, s.stream.moved i⟩).continued result
    | (desc, none) =>
      { s.setStream ⟨desc, { s.counters with streamStart := convert s.counters.position }⟩ with
        phase := .decoding i
        episode := ⟨some s.counters.position, []⟩
        past := s.episode :: s.past }
  else { s with phase := .decoding i }

/-- `try_decode_block` behind the buffering. -/
def decode (convert : ℚ → Int) (s : Playback) (i : CallInput) : Playback :=
  let d := s.desc.decode (s.stream.decodeInput convert i)
  (s.setStream ⟨d.1, s.stream.moved i⟩).continued d.2

/-- The offset of the event in the samples that are read, if it is due. -/
def event (s : Playback) (nsamples : Nat) : Option Int :=
  let offset := s.counters.streamStart - s.counters.processSamples
  if 0 ≤ s.counters.streamStart ∧ offset < nsamples then some (max offset 0) else none

/-- The end of `process`. -/
def finish (s : Playback) (nsamples : Nat) : Playback :=
  { s with
    counters := { s.counters with
      streamStart := if (s.event nsamples).isSome then -1 else s.counters.streamStart
      processSamples := s.counters.processSamples + nsamples }
    episode := { s.episode with
      heard := s.episode.heard ++
        [⟨s.counters.processSamples, nsamples, s.event nsamples, s.streamState⟩] }
    phase := .outside }

/-- There are samples: they are skipped if there have been xruns (`XRUN_THRESHOLD`). -/
def read (s : Playback) (nsamples : Nat) : Playback :=
  if s.xrunblocks > 1 / 10 then
    { s with
      xrunblocks := s.xrunblocks - 1
      counters := { s.counters with processSamples := s.counters.processSamples + nsamples } }
  else s.finish nsamples

/-- What an action does where it can happen: `handle_start` and `reset` wait until `process` has
ended, and its steps come one after the other. -/
def act (convert : ℚ → Int) (s : Playback) : PlaybackAction → Playback
  | .handleStart a t => match s.phase with | .outside => s.handleStart a t | _ => s
  | .reset u latencySamples => match s.phase with | .outside => s.reset u latencySamples | _ => s
  | .handleStop stream => { s with session := s.session.handleStop stream }
  | .handleDecline token => { s with session := s.session.handleDecline token }
  | .handleData d timedOut => { s with session := s.session.handleData d timedOut }
  | .invite token => { s with session := s.session.invite token }
  | .uninvite => { s with session := s.session.uninvite }
  | .inviteTimeout => { s with session := s.session.inviteTimeout }
  | .addXrun nblocks => { s with xrunblocks := s.xrunblocks + nblocks }
  | .enter p => match s.phase with | .outside => s.enter p | _ => s
  | .tryDecode i =>
    match s.phase with
    | .reading => { s.setStream (s.stream.retarget i) with phase := .buffering i }
    | _ => s
  | .buffer => match s.phase with | .buffering i => s.buffer convert i | _ => s
  | .decode => match s.phase with | .decoding i => s.decode convert i | _ => s
  | .read nsamples _ => match s.phase with | .reading => s.read nsamples | _ => s

/-- An episode ends when the stream is not active any more. -/
def close (s t : Playback) : Playback :=
  if s.streamState = .active ∧ t.streamState ≠ .active then
    { t with episode := {}, past := t.episode :: t.past }
  else t

def step (convert : ℚ → Int) (s : Playback) (a : PlaybackAction) : Playback :=
  s.close (s.act convert a)

end Playback

/-! ## The steps are those of a session -/

namespace Counted

/-- Counting what the queue gives does not change what happens to the source. -/
theorem drainQueue_desc (s : Counted) (queue : List NetPacket) :
    (s.drainQueue queue).desc = Session.drainQueue s.desc queue := by
  have hfold : ∀ (queue : List NetPacket) (t : Counted),
      (queue.foldl addPacket t).desc = queue.foldl (fun d p => (d.addPacket p).1) t.desc := by
    intro queue
    induction queue with
    | nil => exact fun t => rfl
    | cons d queue ih => exact fun t => ih (t.addPacket d)
  unfold drainQueue Session.drainQueue
  split
  next => rfl
  next =>
    refine (hfold queue _).trans ?_
    split
    next => rfl
    next => rfl

end Counted

namespace Playback

@[simp] theorem close_session (s t : Playback) : (s.close t).session = t.session := by
  unfold close
  split <;> rfl

@[simp] theorem close_counters (s t : Playback) : (s.close t).counters = t.counters := by
  unfold close
  split <;> rfl

@[simp] theorem close_phase (s t : Playback) : (s.close t).phase = t.phase := by
  unfold close
  split <;> rfl

@[simp] theorem close_stream (s t : Playback) : (s.close t).stream = t.stream := by
  rw [stream, close_session, close_counters, stream]

/-- A step that changes nothing ends no episode. -/
theorem close_self (s : Playback) : s.close s = s := if_neg fun h => h.2 h.1

/-- Of the stream, the beginning of `process` does what it does without counters. -/
theorem fill_desc (s : Playback) (p : EnterInput) (decodes : List SourceDesc.DecodeInput) :
    (s.fill p).desc = s.session.filled ⟨p.resendEnabled, p.limit, p.due, decodes⟩ :=
  congrArg (fun d : SourceDesc => d.checkMissingBlocks p.resendEnabled p.limit p.due)
    (Counted.drainQueue_desc _ _)

/-- What is left of a call that had this result. -/
def Returned (s t : Playback) (r : Counted × Bool) : Prop :=
  t.counters = r.1.counters ∧
    if r.2 then t.session = { s.session with desc := r.1.desc } ∧ t.phase = .reading
    else t.session = Session.onUnderrun { s.session with desc := r.1.desc } ∧ t.phase = .outside

/-- What `try_decode_block` returns decides how `process` goes on: an error ends the call in an
underrun. -/
theorem returned_continued (s u : Playback) (c : Counted) (result : Bool) :
    s.Returned (u.close ((s.setStream c).continued result)) (c, result) := by
  cases result with
  | true => exact ⟨close_counters _ _, close_session _ _, close_phase _ _⟩
  | false => exact ⟨close_counters _ _, close_session _ _, close_phase _ _⟩

/-- Sessions that differ in the source alone give the same result. -/
theorem Returned.of_session {s t u : Playback} {r : Counted × Bool} (h : s.Returned u r)
    (hsession : ∀ desc, ({ s.session with desc } : Session) = { t.session with desc }) :
    t.Returned u r := by
  rw [Returned, hsession] at h
  exact h

/-- The call has ended, and no block is decoded behind it. -/
theorem Returned.step_decode (convert : ℚ → Int) {s t : Playback} {r : Counted × Bool}
    (h : s.Returned t r) : t.step convert .decode = t := by
  have hphase : t.phase = .reading ∨ t.phase = .outside := by
    have hrest := h.2
    split at hrest
    · exact .inl hrest.2
    · exact .inr hrest.2
  have hact : t.act convert .decode = t := by
    rcases hphase with hphase | hphase
    · rw [act, hphase]
    · rw [act, hphase]
  rw [step, hact, close_self]

/-- The last part of a call returns what `decode` returns. -/
theorem returned_decode (convert : ℚ → Int) {s : Playback} {i : CallInput}
    (hphase : s.phase = .decoding i) {c : Counted} (hstream : s.stream = c) :
    s.Returned (s.step convert .decode)
      (⟨(c.desc.decode (c.decodeInput convert i)).1, c.moved i⟩,
        (c.desc.decode (c.decodeInput convert i)).2) := by
  subst hstream
  rw [step, act, hphase]
  exact returned_continued s s _ _

/-- The steps of a `try_decode_block` are the call, with `on_underrun` if there is no block. -/
theorem returned_steps (convert : ℚ → Int) {s : Playback} (hphase : s.phase = .reading)
    (i : CallInput) :
    s.Returned ([.tryDecode i, .buffer, .decode].foldl (step convert) s)
      (s.stream.tryDecodeBlock convert i) := by
  obtain ⟨t, ht⟩ : ∃ t, t = s.step convert (.tryDecode i) := ⟨_, rfl⟩
  have hphase' : t.phase = .buffering i := by
    rw [ht, step, act, hphase]
    exact close_phase _ _
  have hstream : s.stream.retarget i = t.stream := by
    rw [ht, step, act, hphase, close_stream]
    rfl
  have hsession : ∀ desc, ({ t.session with desc } : Session) = { s.session with desc } := by
    intro desc
    rw [ht, step, act, hphase, close_session]
    rfl
  have hbuffer : t.step convert .buffer = t.close (t.buffer convert i) := by
    rw [step, act, hphase']
  rw [List.foldl_cons, List.foldl_cons, List.foldl_cons, List.foldl_nil, ← ht, hbuffer]
  refine Returned.of_session ?_ hsession
  unfold Counted.tryDecodeBlock Playback.buffer
  rw [hstream]
  dsimp only
  by_cases hbuffering : t.streamState = .buffering
  · rw [if_pos hbuffering, if_pos (show t.stream.desc.streamState = .buffering from hbuffering),
      show t.stream.desc.buffer = t.desc.buffer from rfl]
    cases t.desc.buffer (t.stream.decodeInput convert i) with
    | mk desc result =>
      cases result with
      | some result =>
        have hreturned := returned_continued t t ⟨desc, t.stream.moved i⟩ result
        rw [hreturned.step_decode]
        exact hreturned
      | none =>
        refine (returned_decode convert (close_phase _ _) (close_stream _ _)).of_session ?_
        intro other
        rw [close_session]
        rfl
  · rw [if_neg hbuffering, if_neg (show ¬ t.stream.desc.streamState = .buffering from hbuffering)]
    refine (returned_decode convert (close_phase _ _) (close_stream _ _)).of_session ?_
    intro other
    rw [close_session]

end Playback

/-! ## The rule -/

namespace Episode

/-- The stream has got to its position. -/
def Reached (e : Episode) (position : ℚ) : Prop :=
  ∃ x ∈ e.heard, position < ((x.start + x.nsamples : Int) : ℚ)

/-- The calls with the event. -/
def reports (e : Episode) : List Heard := e.heard.filter fun x => x.event.isSome

/-- The event is only reported by an active stream, and by one that has got to its position
exactly once. -/
structure Good (e : Episode) : Prop where
  active : ∀ x ∈ e.heard, x.event.isSome = true → x.state = .active
  once : ∀ position, e.position = some position → e.Reached position → e.reports.length = 1
  silent : ∀ position, e.position = some position → ¬ e.Reached position → e.reports = []

end Episode

namespace Playback

/-- All episodes. -/
def episodes (s : Playback) : List Episode := s.episode :: s.past

/-- A start that has not been reported is not left behind: while it is pending, an active stream
does not buffer again, and a stream that is not active any more gives no samples. And when a
stream becomes active, its position fits. -/
def Lasting (convert : ℚ → Int) (s : Playback) : PlaybackAction → Prop
  | .tryDecode i =>
    s.phase = .reading → 0 ≤ s.counters.streamStart → s.desc.raises i.target = false
  | .buffer => ∀ i, s.phase = .buffering i → s.streamState = .buffering →
    (s.desc.buffer (s.stream.decodeInput convert i)).2 = none →
      -1 < s.counters.position ∧ s.counters.position < 2147483648
  | .decode => ∀ i, s.phase = .decoding i → 0 ≤ s.counters.streamStart →
    s.desc.missesFourth (s.stream.decodeInput convert i) = false
  | .read _ _ => s.phase = .reading → s.xrunblocks ≤ 1 / 10 → s.streamState = .inactive →
    s.counters.streamStart < 0
  | _ => True

instance (phase : Phase) : Decidable (phase = .reading) :=
  match phase with
  | .reading => .isTrue rfl
  | .outside | .buffering _ | .decoding _ => .isFalse nofun

instance (phase : Phase) {P : CallInput → Prop} [DecidablePred P] :
    Decidable (∀ i, phase = .buffering i → P i) :=
  match phase with
  | .buffering i =>
    decidable_of_iff (P i) ⟨fun h _ hj => Phase.buffering.inj hj ▸ h, fun h => h i rfl⟩
  | .outside | .reading | .decoding _ => .isTrue nofun

instance (phase : Phase) {P : CallInput → Prop} [DecidablePred P] :
    Decidable (∀ i, phase = .decoding i → P i) :=
  match phase with
  | .decoding i =>
    decidable_of_iff (P i) ⟨fun h _ hj => Phase.decoding.inj hj ▸ h, fun h => h i rfl⟩
  | .outside | .reading | .buffering _ => .isTrue nofun

instance (convert : ℚ → Int) (s : Playback) : DecidablePred (s.Lasting convert)
  | .tryDecode _ => inferInstanceAs (Decidable (_ = Phase.reading → _ → _ = _))
  | .buffer => inferInstanceAs (Decidable (∀ i, _ = Phase.buffering i → _ → _ → _ ∧ _))
  | .decode => inferInstanceAs (Decidable (∀ i, _ = Phase.decoding i → _ → _ = _))
  | .read _ _ => inferInstanceAs (Decidable (_ = Phase.reading → _ → _ → _))
  | .handleStart _ _ | .reset _ _ | .handleStop _ | .handleDecline _ | .handleData _ _
  | .invite _ | .uninvite | .inviteTimeout | .addXrun _ | .enter _ => .isTrue trivial

end Playback

/-! ## The stream state -/

namespace SourceDesc

variable (s : SourceDesc)

/-- Frames of a known block leave the stream state alone. -/
theorem streamState_updateBlock (d : NetPacket) (slot : Nat) :
    (s.updateBlock d slot).1.streamState = s.streamState := by
  obtain ⟨stats, hbeside⟩ := s.beside_updateBlock d slot
  exact hbeside.streamState

/-- Only a block that is too far ahead makes the stream buffer again. -/
theorem streamState_addBlock (d : NetPacket) : (s.addBlock d).1.streamState =
    if s.tooFar d.sequence then .buffering else s.streamState := by
  have hroom : (s.makeRoom d.sequence).streamState =
      if s.jitterBuffer.lastPushed ≠ JitterBuffer.sentinel ∧
        toInt32 (d.sequence - s.jitterBuffer.lastPushed) >
          (s.jitterBuffer.capacity : Int) - s.jitterBuffer.size
      then .buffering else s.streamState := by
    unfold makeRoom
    dsimp only
    by_cases hnew : s.jitterBuffer.lastPushed ≠ JitterBuffer.sentinel
    · rw [if_pos hnew]
      by_cases hfar : toInt32 (d.sequence - s.jitterBuffer.lastPushed) >
          (s.jitterBuffer.capacity : Int) - s.jitterBuffer.size
      · rw [if_pos hfar, if_pos ⟨hnew, hfar⟩]
        rfl
      · rw [if_neg hfar, if_neg fun h => hfar h.2]
        exact (beside_fillGaps _ _ s).streamState
    · rw [if_neg hnew, if_neg fun h => hnew h.1]
  unfold addBlock tooFar
  by_cases hold : d.sequence ≤ s.jitterBuffer.lastPushed
  · rw [if_pos hold, decide_eq_true hold]
    rfl
  · rw [if_neg hold, decide_eq_false hold]
    refine (beside_addFrame _ d _).streamState.trans (hroom.trans ?_)
    simp only [Bool.not_false, Bool.true_and, Bool.and_eq_true, decide_eq_true_eq]

/-- A packet makes the stream buffer again if it overruns the buffer, and else does not. -/
theorem streamState_addPacket (d : NetPacket) : (s.addPacket d).1.streamState =
    if s.overruns d then .buffering else s.streamState := by
  unfold addPacket overruns
  split
  next => rfl
  next =>
    split
    next => rfl
    next =>
      cases hwrap : s.checkWrap d.sequence with
      | none => rfl
      | some t =>
        have ht := (beside_checkWrap hwrap).streamState
        rcases Option.eq_none_or_eq_some (t.jitterBuffer.find d.sequence) with hfind | ⟨slot, hfind⟩
        · simp only [hfind, streamState_addBlock, ht]
        · simp only [hfind]
          exact (t.streamState_updateBlock d slot).trans ht

/-- Requests for missing blocks leave the stream state alone. -/
theorem streamState_checkMissingBlocks (resendEnabled : Bool) (limit : Int) (due : List Bool) :
    (s.checkMissingBlocks resendEnabled limit due).streamState = s.streamState :=
  (s.beside_checkMissingBlocks resendEnabled limit due).streamState

/-- A new target makes the stream buffer again if it is higher and the stream active. -/
theorem streamState_retarget (target : UInt32) : (s.retarget target).streamState =
    if s.raises target then .buffering else s.streamState := by
  unfold retarget raises
  cases s.lowLatency with
  | none => rfl
  | some c =>
    by_cases hnew : target > 0 ∧ target ≠ c.targetLatencyFrames
    · simp only [if_pos hnew, decide_eq_true hnew, Bool.true_and, decide_eq_true_eq]
    · simp only [if_neg hnew, decide_eq_false hnew, Bool.false_and, Bool.false_eq_true, if_false]

/-- The fourth missing block makes the stream buffer again, and nothing else does behind the
buffering. -/
theorem streamState_decode (i : DecodeInput) : (s.decode i).1.streamState =
    if s.missesFourth i then .buffering else s.streamState := by
  have hsame := s.sameStream_trimmed
  have hread := s.trimmed.readFront_sameStream s.trimmed.jitterBuffer.front
  have hreacquire : ∀ t : SourceDesc, t.countMissing.reacquire.streamState =
      if 3 ≤ t.consecutiveMissingBlocks then .buffering else t.streamState := by
    intro t
    have hcount : t.countMissing.consecutiveMissingBlocks = t.consecutiveMissingBlocks + 1 := rfl
    unfold reacquire
    split
    next h => rw [if_pos (by omega)]
    next h => rw [if_neg (by omega)]; rfl
  rw [decode_eq, missesFourth]
  by_cases hempty : s.trimmed.jitterBuffer.empty = true
  · rw [if_pos hempty, if_pos hempty, decodeMissing]
    by_cases hplay : s.trimmed.lowLatency.isSome ∧ s.trimmed.streamState = .active ∧
        i.written = true
    · obtain ⟨hlow, hactive, hwritten⟩ := hplay
      rw [if_pos ⟨hlow, hactive, hwritten⟩, hlow, hwritten, decide_eq_true hactive, hreacquire]
      simp only [Bool.true_and, Bool.and_true, decide_eq_true_eq]
      rw [← hsame.streamState]
    · rw [if_neg hplay, if_neg, hsame.streamState]
      simp only [Bool.and_eq_true, decide_eq_true_eq]
      rintro ⟨⟨⟨hlow, hwritten⟩, -⟩, hactive⟩
      exact hplay ⟨hlow, hactive, hwritten⟩
  · rw [if_neg hempty, if_neg hempty, decodeFront]
    dsimp only
    revert hread
    generalize s.trimmed.readFront s.trimmed.jitterBuffer.front = t
    intro hread
    have hstate := hread.streamState.trans hsame.streamState
    rw [hread.lowLatency, ← hread.missing]
    cases hwritten : i.written with
    | false => simpa [popFront] using hstate
    | true =>
      cases hlow : s.trimmed.lowLatency with
      | none => simpa [popFront] using hstate
      | some c =>
        cases hcomplete : s.trimmed.jitterBuffer.front.complete with
        | true => simpa [popFront] using hstate
        | false =>
          have hcount : t.countMissing.consecutiveMissingBlocks =
              t.consecutiveMissingBlocks + 1 := rfl
          by_cases hfour : 3 ≤ t.consecutiveMissingBlocks
          · have hr := hreacquire t
            rw [if_pos hfour] at hr
            simpa [hcount, hfour] using hr
          · have hpop : t.countMissing.popFront.streamState = t.streamState := rfl
            simpa [hcount, hfour, hpop] using hstate

end SourceDesc

namespace Counted

/-- The packets leave the stream state and the counters alone, or the stream buffers again and the
counters are reset. -/
def Refilled (s t : Counted) : Prop :=
  t.desc.streamState = s.desc.streamState ∧ t.counters = s.counters ∨
    t.desc.streamState = .buffering ∧ t.counters.streamStart = -1 ∧ t.counters.processSamples = 0

/-- More packets do no more than that. -/
theorem Refilled.trans {s t u : Counted} (h : Refilled s t) (g : Refilled t u) : Refilled s u := by
  rcases g with ⟨hstate, hcounters⟩ | hreset
  · rcases h with h | h
    · exact .inl ⟨hstate.trans h.1, hcounters.trans h.2⟩
    · exact .inr ⟨hstate.trans h.1, by rw [hcounters]; exact h.2⟩
  · exact .inr hreset

/-- A packet leaves state and counters alone, or the jitter buffer is cleared and both start
again. -/
theorem refilled_addPacket (s : Counted) (d : NetPacket) : Refilled s (s.addPacket d) := by
  have hstate := s.desc.streamState_addPacket d
  unfold Refilled addPacket
  cases hoverrun : s.desc.overruns d with
  | true =>
    rw [hoverrun, if_pos rfl] at hstate
    exact .inr ⟨hstate, rfl, rfl⟩
  | false =>
    rw [hoverrun, if_neg Bool.false_ne_true] at hstate
    exact .inl ⟨hstate, rfl⟩

theorem refilled_drainQueue (s : Counted) (queue : List NetPacket) :
    Refilled s (s.drainQueue queue) := by
  have hfold : ∀ (queue : List NetPacket) (t : Counted), Refilled s t →
      Refilled s (queue.foldl addPacket t) := by
    intro queue
    induction queue with
    | nil => exact fun t ht => ht
    | cons d queue ih => exact fun t ht => ih _ (ht.trans (refilled_addPacket t d))
  unfold drainQueue
  split
  next => exact .inl ⟨rfl, rfl⟩
  next =>
    apply hfold
    split
    next => exact .inr ⟨rfl, rfl, rfl⟩
    next => exact .inl ⟨rfl, rfl⟩

/-- A new target for the buffers does not move the stream. -/
theorem retarget_counters (s : Counted) (i : CallInput) :
    (s.retarget i).counters.streamStart = s.counters.streamStart ∧
      (s.retarget i).counters.processSamples = s.counters.processSamples := by
  unfold retarget
  dsimp only
  split
  · exact ⟨rfl, rfl⟩
  · split
    · exact ⟨rfl, rfl⟩
    · exact ⟨rfl, rfl⟩

end Counted

/-! ## Positions -/

/-- A position behind -1 is cut off to a sample of the stream, and not passed before. -/
theorem trunc_lt_iff {x : ℚ} {n : Int} (hx : -1 < x) (hn : 0 < n) : trunc x < n ↔ x < n := by
  unfold trunc
  split
  next => exact Int.floor_lt
  next hneg =>
    have hfloor : ⌊-x⌋ = 0 := by
      rw [Int.floor_eq_iff]
      push_cast
      constructor
      · linarith
      · linarith
    have hcast : (0 : ℚ) < n := by exact_mod_cast hn
    rw [hfloor]
    exact iff_of_true (by omega) (by linarith)

/-- The conversion cuts towards zero, so it is only below zero from `-1` down. -/
theorem trunc_nonneg_of {x : ℚ} (hx : -1 < x) : 0 ≤ trunc x := by
  by_contra hneg
  have hlt : trunc x < 0 := not_le.mp hneg
  unfold trunc at hlt
  split at hlt
  next h =>
    have := Int.floor_nonneg.mpr h
    omega
  next h =>
    have hfloor : ⌊-x⌋ < 1 := by
      rw [Int.floor_lt]
      push_cast
      linarith
    omega

/-! ## Episodes -/

namespace Episode

/-- The start has not been reported, and the stream has not got to it. -/
structure Pending (e : Episode) (position : ℚ) (streamStart : Int) : Prop where
  starts : e.position = some position
  start : streamStart = trunc position
  fits : -1 < position
  silent : ∀ x ∈ e.heard, x.event = none
  ahead : ∀ x ∈ e.heard, ((x.start + x.nsamples : Int) : ℚ) ≤ position

/-- The start has been reported. -/
structure Done (e : Episode) (position : ℚ) : Prop where
  starts : e.position = some position
  reached : e.Reached position
  reports : e.reports.length = 1
  active : ∀ x ∈ e.heard, x.event.isSome = true → x.state = .active

/-- A pending start has not been reported. -/
theorem Pending.reports {e : Episode} {position : ℚ} {streamStart : Int}
    (h : e.Pending position streamStart) : e.reports = [] := by
  apply List.filter_eq_nil_iff.mpr
  intro x hx
  rw [h.silent x hx]
  exact Bool.false_ne_true

/-- The samples that were read end before a pending start. -/
theorem Pending.not_reached {e : Episode} {position : ℚ} {streamStart : Int}
    (h : e.Pending position streamStart) : ¬ e.Reached position := by
  rintro ⟨x, hx, hlt⟩
  exact absurd (h.ahead x hx) (not_le.mpr hlt)

/-- A pending start is as it should be: not reached and not reported. -/
theorem Pending.good {e : Episode} {position : ℚ} {streamStart : Int}
    (h : e.Pending position streamStart) : e.Good := by
  refine ⟨?_, ?_, fun _ _ _ => h.reports⟩
  · intro x hx hevent
    rw [h.silent x hx] at hevent
    cases hevent
  · intro q hq hreached
    rw [h.starts] at hq
    cases hq
    exact absurd hreached h.not_reached

/-- So is one that was reported once, when the stream got to it. -/
theorem Done.good {e : Episode} {position : ℚ} (h : e.Done position) : e.Good := by
  refine ⟨h.active, fun _ _ _ => h.reports, ?_⟩
  intro q hq hreached
  rw [h.starts] at hq
  cases hq
  exact absurd h.reached hreached

/-- One more call. -/
def hear (e : Episode) (x : Heard) : Episode := { e with heard := e.heard ++ [x] }

/-- What is heard is added to the episode. -/
theorem mem_hear {e : Episode} {x y : Heard} : y ∈ (e.hear x).heard ↔ y ∈ e.heard ∨ y = x := by
  rw [hear, List.mem_append, List.mem_singleton]

/-- A call without event, before the position. -/
theorem Pending.wait {e : Episode} {position : ℚ} {streamStart : Int}
    (h : e.Pending position streamStart) {x : Heard} (hevent : x.event = none)
    (hahead : ((x.start + x.nsamples : Int) : ℚ) ≤ position) :
    (e.hear x).Pending position streamStart := by
  refine ⟨h.starts, h.start, h.fits, ?_, ?_⟩
  · intro y hy
    rcases mem_hear.mp hy with hy | rfl
    · exact h.silent y hy
    · exact hevent
  · intro y hy
    rcases mem_hear.mp hy with hy | rfl
    · exact h.ahead y hy
    · exact hahead

/-- The call with the event, at the position. -/
theorem Pending.report {e : Episode} {position : ℚ} {streamStart : Int}
    (h : e.Pending position streamStart) {x : Heard} (hevent : x.event.isSome = true)
    (hstate : x.state = .active) (hreached : position < ((x.start + x.nsamples : Int) : ℚ)) :
    (e.hear x).Done position := by
  refine ⟨h.starts, ⟨x, mem_hear.mpr (.inr rfl), hreached⟩, ?_, ?_⟩
  · have hold : e.heard.filter (fun x => x.event.isSome) = [] := h.reports
    have hnew : [x].filter (fun x => x.event.isSome) = [x] :=
      List.filter_eq_self.mpr fun y hy => by rw [List.mem_singleton.mp hy, hevent]
    rw [Episode.reports, hear, List.filter_append, hold, hnew]
    rfl
  · intro y hy hsome
    rcases mem_hear.mp hy with hy | rfl
    · rw [h.silent y hy] at hsome
      cases hsome
    · exact hstate

/-- A call without event, after the position. -/
theorem Done.wait {e : Episode} {position : ℚ} (h : e.Done position) {x : Heard}
    (hevent : x.event = none) : (e.hear x).Done position := by
  obtain ⟨y, hy, hlt⟩ := h.reached
  refine ⟨h.starts, ⟨y, mem_hear.mpr (.inl hy), hlt⟩, ?_, ?_⟩
  · have hold : (e.heard.filter fun x => x.event.isSome).length = 1 := h.reports
    have hnew : [x].filter (fun x => x.event.isSome) = [] :=
      List.filter_eq_nil_iff.mpr fun y hy => by
        rw [List.mem_singleton.mp hy, hevent]
        exact Bool.false_ne_true
    rw [Episode.reports, hear, List.filter_append, hnew, List.append_nil, hold]
  · intro y hy hsome
    rcases mem_hear.mp hy with hy | rfl
    · exact h.active y hy hsome
    · rw [hevent] at hsome
      cases hsome

/-- Without a position there is nothing to report. -/
theorem Good.wait {e : Episode} (h : e.Good) (hnone : e.position = none) {x : Heard}
    (hevent : x.event = none) : (e.hear x).Good := by
  refine ⟨?_, ?_, ?_⟩
  · intro y hy hsome
    rcases mem_hear.mp hy with hy | rfl
    · exact h.active y hy hsome
    · rw [hevent] at hsome
      cases hsome
  · intro q hq
    rw [show (e.hear x).position = e.position from rfl, hnone] at hq
    cases hq
  · intro q hq
    rw [show (e.hear x).position = e.position from rfl, hnone] at hq
    cases hq

end Episode

/-! ## The invariant -/

namespace Playback

/-- A stream that buffers, or will, has no pending start. `process` has seen all updates when it
reads samples. -/
structure Settled (s : Playback) : Prop where
  elapsed : 0 ≤ s.counters.processSamples
  buffering : s.streamState = .buffering → s.counters.streamStart < 0
  updated : s.session.didUpdate = true → s.counters.streamStart < 0 ∧ s.phase = .outside
  starting : s.session.state = .start → s.session.didUpdate = true

/-- The episodes are as they should be, and so will be the one of an active stream. -/
structure Inv (s : Playback) : Prop extends Settled s where
  past : ∀ e ∈ s.past, e.Good
  good : s.episode.Good
  active_iff : s.streamState = .active ↔ s.episode.position ≠ none
  current : ∀ position, s.episode.position = some position → s.session.didUpdate = false →
    s.episode.Pending position s.counters.streamStart ∨
      s.episode.Done position ∧ s.counters.streamStart < 0

/-- An active stream goes on with its episode. -/
theorem close_of_active {s t : Playback} (h : t.streamState = .active) : s.close t = t :=
  if_neg fun hc => hc.2 h

/-- A stream that was not active has no episode to end. -/
theorem close_of_not_active {s t : Playback} (h : s.streamState ≠ .active) : s.close t = t :=
  if_neg fun hc => h hc.1

/-- A step that keeps the stream state ends no episode. -/
theorem close_of_same {s t : Playback} (h : t.streamState = s.streamState) : s.close t = t := by
  by_cases hactive : s.streamState = .active
  · exact close_of_active (h.trans hactive)
  · exact close_of_not_active hactive

/-- A new source has heard nothing. -/
theorem inv_init : Inv {} where
  elapsed := le_refl 0
  buffering := nofun
  updated := nofun
  starting := nofun
  past := nofun
  good := ⟨nofun, nofun, nofun⟩
  active_iff := iff_of_false nofun fun h => h rfl
  current := nofun

/-- A step that does not change what the stream does. The pending start may only go with an
update. -/
theorem Inv.kept {s t : Playback} (h : s.Inv) (ht : t.Settled) (hpast : t.past = s.past)
    (hepisode : t.episode = s.episode) (hstate : t.streamState = s.streamState)
    (hstart : t.session.didUpdate = false →
      s.session.didUpdate = false ∧ t.counters.streamStart = s.counters.streamStart) :
    (s.close t).Inv := by
  rw [close_of_same hstate]
  refine ⟨ht, ?_, ?_, ?_, ?_⟩
  · rw [hpast]
    exact h.past
  · rw [hepisode]
    exact h.good
  · rw [hstate, hepisode]
    exact h.active_iff
  · intro position hposition hupdate
    obtain ⟨hupdate', hsame⟩ := hstart hupdate
    rw [hepisode] at hposition ⊢
    rw [hsame]
    exact h.current position hposition hupdate'

/-- A step behind which the stream is not active. -/
theorem Inv.away {s t : Playback} (h : s.Inv) (ht : t.Settled) (hpast : t.past = s.past)
    (hepisode : t.episode = s.episode) (hstate : t.streamState ≠ .active) : (s.close t).Inv := by
  by_cases hactive : s.streamState = .active
  · -- the episode ends here
    rw [close, if_pos ⟨hactive, hstate⟩]
    refine ⟨⟨ht.elapsed, ht.buffering, ht.updated, ht.starting⟩, ?_, ?_, ?_, nofun⟩
    · intro e he
      rcases List.mem_cons.mp he with rfl | he
      · rw [hepisode]
        exact h.good
      · rw [hpast] at he
        exact h.past e he
    · exact ⟨nofun, nofun, nofun⟩
    · exact iff_of_false hstate fun hne => hne rfl
  · rw [close_of_not_active hactive]
    have hnone : t.episode.position = none := by
      rw [hepisode]
      by_contra hne
      exact hactive (h.active_iff.mpr hne)
    refine ⟨ht, ?_, ?_, ?_, ?_⟩
    · rw [hpast]
      exact h.past
    · rw [hepisode]
      exact h.good
    · exact iff_of_false hstate fun hne => hne hnone
    · intro position hposition
      rw [hnone] at hposition
      cases hposition

end Playback

/-! ## Messages and settings -/

namespace Session

/-- A message that only `process` sees: the stream stays as it is, and does not start. -/
structure Quiet (s t : Session) : Prop where
  desc : t.desc = s.desc
  didUpdate : t.didUpdate = s.didUpdate
  state : t.state = .start → s.state = .start

theorem Quiet.refl (s : Session) : s.Quiet s := ⟨rfl, rfl, id⟩

/-- `/stop` sets the stop flag and leaves the stream to `process`. -/
theorem quiet_handleStop (s : Session) (stream : Int) : s.Quiet (s.handleStop stream) := by
  unfold handleStop
  split
  · exact ⟨rfl, rfl, nofun⟩
  · exact .refl s

/-- A declined invitation does not start a stream. -/
theorem quiet_handleDecline (s : Session) (token : Int) : s.Quiet (s.handleDecline token) := by
  unfold handleDecline
  split
  · exact ⟨rfl, rfl, nofun⟩
  · exact .refl s

/-- Data is queued, and may ask for an invitation to be sent again. -/
theorem quiet_handleData (s : Session) (d : NetPacket) (timedOut : Bool) :
    s.Quiet (s.handleData d timedOut) := by
  have hqueue : s.Quiet (if accepts s.desc d then { s with packetQueue := s.packetQueue ++ [d] }
      else s) := by
    split
    · exact ⟨rfl, rfl, id⟩
    · exact .refl s
  unfold handleData
  split
  next =>
    split
    · exact ⟨rfl, rfl, nofun⟩
    · exact .refl s
  next =>
    split
    · exact .refl s
    · exact hqueue
  next => exact .refl s
  next => exact .refl s
  next => exact hqueue
  next => exact hqueue
  next => exact hqueue

/-- `uninvite` asks for the stream to stop; it plays on until then. -/
theorem quiet_uninvite (s : Session) : s.Quiet s.uninvite := by
  unfold uninvite
  split
  · exact ⟨rfl, rfl, nofun⟩
  · exact .refl s

/-- An invitation that nobody answers does not start a stream. -/
theorem quiet_inviteTimeout (s : Session) : s.Quiet s.inviteTimeout := by
  unfold inviteTimeout
  split
  · exact ⟨rfl, rfl, nofun⟩
  · exact .refl s

end Session

namespace Playback

/-- `/start` leaves the stream state alone, and updates the source exactly if the message is
taken. -/
theorem handleStart_frame (s : Playback) (a : SourceDesc.StartArgs) :
    (s.session.handleStart a).desc.streamState = s.streamState ∧
      if s.starts a then (s.session.handleStart a).didUpdate = true
      else (s.session.handleStart a).didUpdate = s.session.didUpdate ∧
        (s.session.handleStart a).state = s.session.state := by
  have hstream := Session.streamState_handleStart s.session.desc a
  unfold Session.handleStart starts desc
  by_cases hinvite : s.session.state = .invite ∧ a.streamId ≠ s.session.inviteToken
  · rw [if_pos hinvite, decide_eq_true hinvite]
    exact ⟨rfl, rfl, rfl⟩
  · rw [if_neg hinvite, decide_eq_false hinvite]
    by_cases hsame : a.streamId = s.session.desc.streamId
    · rw [if_pos hsame, decide_eq_true hsame]
      exact ⟨rfl, rfl, rfl⟩
    · rw [if_neg hsame, decide_eq_false hsame]
      cases hdecoder : (s.session.desc.handleStart a).decoder.isSome with
      | true =>
        simp only [hdecoder, if_true]
        exact ⟨hstream, trivial⟩
      | false =>
        simp only [hdecoder, Bool.false_eq_true, if_false]
        exact ⟨hstream, trivial, trivial⟩

/-- An update resets the counters, and `process` will see it. -/
theorem Inv.updated_reset {s t : Playback} (h : s.Inv) (hpast : t.past = s.past)
    (hepisode : t.episode = s.episode) (hstate : t.streamState = s.streamState)
    (hupdate : t.session.didUpdate = true) (hphase : t.phase = .outside)
    (hstart : t.counters.streamStart = -1) (hprocess : t.counters.processSamples = 0) :
    (s.close t).Inv := by
  have hneg : t.counters.streamStart < 0 := by omega
  refine h.kept ⟨?_, ?_, ?_, ?_⟩ hpast hepisode hstate ?_
  · rw [hprocess]
  · intro _
    exact hneg
  · intro _
    exact ⟨hneg, hphase⟩
  · intro _
    exact hupdate
  · intro hfalse
    exact absurd (hupdate.symm.trans hfalse) nofun

/-- A message that only `process` sees. -/
theorem Inv.message {s : Playback} (h : s.Inv) {session : Session}
    (hquiet : s.session.Quiet session) : (s.close { s with session }).Inv := by
  obtain ⟨hdesc, hupdate, hstate⟩ := hquiet
  have hstream : Playback.streamState { s with session } = s.streamState := by
    rw [streamState, hdesc]
    rfl
  refine h.kept ⟨h.elapsed, ?_, ?_, ?_⟩ rfl rfl hstream ?_
  · intro hbuffering
    exact h.buffering (hstream.symm.trans hbuffering)
  · intro htrue
    exact h.updated (hupdate.symm.trans htrue)
  · intro hstart
    exact hupdate.trans (h.starting (hstate hstart))
  · intro hfalse
    exact ⟨hupdate.symm.trans hfalse, rfl⟩

/-- `/start` keeps the invariant: its reset comes with an update that `process` will see. -/
theorem Inv.handleStart {s : Playback} (h : s.Inv) (hphase : s.phase = .outside)
    (a : SourceDesc.StartArgs) (t : StartTiming) : (s.close (s.handleStart a t)).Inv := by
  obtain ⟨hstream, hsession⟩ := s.handleStart_frame a
  cases hstarts : s.starts a with
  | true =>
    rw [hstarts, if_pos rfl] at hsession
    have hcounters : (s.handleStart a t).counters.streamStart = -1 ∧
        (s.handleStart a t).counters.processSamples = 0 := by
      rw [Playback.handleStart, hstarts, if_pos rfl]
      exact ⟨rfl, rfl⟩
    exact h.updated_reset rfl rfl hstream hsession hphase hcounters.1 hcounters.2
  | false =>
    rw [hstarts, if_neg Bool.false_ne_true] at hsession
    obtain ⟨hupdate, hstate⟩ := hsession
    have hcounters : (s.handleStart a t).counters = s.counters := by
      rw [Playback.handleStart, hstarts, if_neg Bool.false_ne_true]
    refine h.kept ⟨?_, ?_, ?_, ?_⟩ rfl rfl hstream ?_
    · rw [hcounters]
      exact h.elapsed
    · intro hbuffering
      rw [hcounters]
      exact h.buffering (hstream.symm.trans hbuffering)
    · intro htrue
      rw [hcounters]
      exact h.updated (hupdate.symm.trans htrue)
    · intro hstart
      exact hupdate.trans (h.starting (hstate.symm.trans hstart))
    · intro hfalse
      exact ⟨hupdate.symm.trans hfalse, congrArg _ hcounters⟩

/-- So does a reset by the user. -/
theorem Inv.reset {s : Playback} (h : s.Inv) (hphase : s.phase = .outside)
    (u : SourceDesc.UpdateArgs) (latencySamples : Int) :
    (s.close (s.reset u latencySamples)).Inv := by
  by_cases hdecoder : s.desc.decoder.isSome = true
  · have hsession : (s.reset u latencySamples).streamState = s.streamState ∧
        (s.reset u latencySamples).session.didUpdate = true := by
      unfold Playback.reset Session.reset streamState
      rw [if_pos (show s.session.desc.decoder.isSome = true from hdecoder)]
      exact ⟨Session.streamState_update s.session.desc u, rfl⟩
    have hcounters : (s.reset u latencySamples).counters.streamStart = -1 ∧
        (s.reset u latencySamples).counters.processSamples = 0 := by
      rw [Playback.reset, if_pos hdecoder]
      exact ⟨rfl, rfl⟩
    exact h.updated_reset rfl rfl hsession.1 hsession.2 hphase hcounters.1 hcounters.2
  · have hsame : s.reset u latencySamples = s := by
      unfold Playback.reset Session.reset
      rw [if_neg hdecoder, if_neg (show ¬ s.session.desc.decoder.isSome = true from hdecoder)]
    rw [hsame, close_self]
    exact h

/-! ## The beginning of `process` -/

/-- Only an update and the packets change the state of the stream. -/
theorem refilled_fill (s : Playback) (p : EnterInput) :
    Counted.Refilled
      ⟨if s.session.didUpdate then { s.desc with streamState := .buffering } else s.desc,
        s.counters⟩ (s.fill p).stream := by
  have hqueue := Counted.refilled_drainQueue
    ⟨if s.session.didUpdate then { s.desc with streamState := .buffering } else s.desc,
      s.counters⟩ s.session.packetQueue
  have hcheck := fun d : SourceDesc =>
    d.streamState_checkMissingBlocks p.resendEnabled p.limit p.due
  rcases hqueue with ⟨hstate, hcounters⟩ | ⟨hstate, hreset⟩
  · exact .inl ⟨(hcheck _).trans hstate, hcounters⟩
  · exact .inr ⟨(hcheck _).trans hstate, hreset⟩

/-- The queue and the missing blocks keep it, since a cleared buffer takes the pending start with
it. -/
theorem Inv.fill {s : Playback} (h : s.Inv) (session : Session)
    (hupdate : session.didUpdate = s.session.didUpdate) (hstate : session.state ≠ .start)
    (hstream : s.session.didUpdate = false → session.desc.streamState = s.streamState)
    (p : EnterInput) : (s.close (Playback.fill { s with session } p)).Inv := by
  have hrefilled := refilled_fill { s with session } p
  revert hrefilled
  dsimp only
  rw [hupdate]
  intro hrefilled
  rcases hrefilled with ⟨hsame, hcounters⟩ | ⟨hbuffering, hstart, hprocess⟩
  · have hcounters : (Playback.fill { s with session } p).counters = s.counters := hcounters
    cases hdid : s.session.didUpdate with
    | true =>
      -- the counters have been reset with the update
      have hbuffering : (Playback.fill { s with session } p).streamState = .buffering := by
        rw [hdid, if_pos rfl] at hsame
        exact hsame
      refine h.away ⟨?_, ?_, nofun, fun hstart => absurd hstart hstate⟩ rfl rfl ?_
      · rw [hcounters]
        exact h.elapsed
      · intro _
        rw [hcounters]
        exact (h.updated hdid).1
      · rw [hbuffering]
        exact nofun
    | false =>
      have hsame : (Playback.fill { s with session } p).streamState = s.streamState := by
        rw [hdid, if_neg Bool.false_ne_true] at hsame
        exact Eq.trans hsame (hstream hdid)
      refine h.kept ⟨?_, ?_, nofun, fun hstart => absurd hstart hstate⟩ rfl rfl hsame ?_
      · rw [hcounters]
        exact h.elapsed
      · intro hbuffering
        rw [hcounters]
        exact h.buffering (hsame.symm.trans hbuffering)
      · intro _
        exact ⟨hdid, by rw [hcounters]⟩
  · have hbuffering : (Playback.fill { s with session } p).streamState = .buffering := hbuffering
    have hstart : (Playback.fill { s with session } p).counters.streamStart = -1 := hstart
    have hprocess : (Playback.fill { s with session } p).counters.processSamples = 0 := hprocess
    refine h.away ⟨?_, ?_, nofun, fun hstart => absurd hstart hstate⟩ rfl rfl ?_
    · rw [hprocess]
    · intro _
      omega
    · rw [hbuffering]
      exact nofun

/-- The head of `process` keeps it, whether the stream starts, stops or goes on. -/
theorem Inv.enter {s : Playback} (h : s.Inv) (p : EnterInput) : (s.close (s.enter p)).Inv := by
  have hinactive : (s.close { s with session := { s.session with
      desc := { s.desc with streamState := .inactive } } }).Inv :=
    h.away ⟨h.elapsed, nofun, h.updated, h.starting⟩ rfl rfl nofun
  unfold Playback.enter
  split
  next =>
    split
    next hstate =>
      refine h.fill s.session.begin rfl nofun ?_ p
      intro hfalse
      exact absurd (hfalse.symm.trans (h.starting hstate)) nofun
    next =>
      exact h.fill { s.session with desc := { s.desc with stopped := true }, state := .run } rfl
        nofun (fun _ => rfl) p
    next hstate => exact h.fill s.session rfl (by rw [hstate]; exact nofun) (fun _ => rfl) p
    next hstate => exact h.fill s.session rfl (by rw [hstate]; exact nofun) (fun _ => rfl) p
    next => exact hinactive
    next => exact hinactive
    next => exact hinactive
  next =>
    rw [close_self]
    exact h

/-! ## Blocks -/

/-- Inside a call all updates have been seen. -/
theorem Settled.updated_of_phase {s : Playback} (h : s.Settled) (hphase : s.phase ≠ .outside) :
    s.session.didUpdate = false := by
  cases hupdate : s.session.didUpdate with
  | true => exact absurd (h.updated hupdate).2 hphase
  | false => rfl

/-- Inside a call no stream is about to start. -/
theorem Settled.state_of_phase {s : Playback} (h : s.Settled) (hphase : s.phase ≠ .outside) :
    s.session.state ≠ .start := by
  intro hstart
  exact absurd ((h.updated_of_phase hphase).symm.trans (h.starting hstart)) nofun

/-- The stream has changed, but its counters are as before. Only without a pending start may it
buffer again. -/
theorem Inv.changed {s t : Playback} (h : s.Inv) (hphase : s.phase ≠ .outside)
    (hpast : t.past = s.past) (hepisode : t.episode = s.episode)
    (hsession : t.session.didUpdate = s.session.didUpdate ∧ t.session.state = s.session.state)
    (hcounters : t.counters.streamStart = s.counters.streamStart ∧
      t.counters.processSamples = s.counters.processSamples)
    (hstate : t.streamState = s.streamState ∨
      t.streamState = .buffering ∧ s.counters.streamStart < 0) : (s.close t).Inv := by
  have hupdate := hsession.1.trans (h.updated_of_phase hphase)
  have helapsed : 0 ≤ t.counters.processSamples := hcounters.2.symm ▸ h.elapsed
  have hupdated : t.session.didUpdate = true → t.counters.streamStart < 0 ∧ t.phase = .outside :=
    fun htrue => absurd (hupdate.symm.trans htrue) nofun
  have hstarting : t.session.state = .start → t.session.didUpdate = true :=
    fun hstart => absurd (hsession.2.symm.trans hstart) (h.state_of_phase hphase)
  rcases hstate with hsame | ⟨hbuffering, hstart⟩
  · refine h.kept ⟨helapsed, ?_, hupdated, hstarting⟩ hpast hepisode hsame ?_
    · intro hbuffering
      rw [hcounters.1]
      exact h.buffering (hsame.symm.trans hbuffering)
    · intro _
      exact ⟨h.updated_of_phase hphase, hcounters.1⟩
  · refine h.away ⟨helapsed, ?_, hupdated, hstarting⟩ hpast hepisode ?_
    · intro _
      rw [hcounters.1]
      exact hstart
    · rw [hbuffering]
      exact nofun

/-- A call to `try_decode_block` keeps it, unless a raised target takes an active stream back to
buffering. -/
theorem Inv.tryDecode {s : Playback} (h : s.Inv) (hphase : s.phase = .reading) (i : CallInput)
    (hraises : 0 ≤ s.counters.streamStart → s.desc.raises i.target = false) :
    (s.close { s.setStream (s.stream.retarget i) with phase := .buffering i }).Inv := by
  have hstream : (s.stream.retarget i).desc.streamState =
      if s.desc.raises i.target then .buffering else s.streamState :=
    s.session.desc.streamState_retarget i.target
  refine h.changed (by rw [hphase]; exact nofun) rfl rfl ⟨rfl, rfl⟩
    (s.stream.retarget_counters i) ?_
  cases hraise : s.desc.raises i.target with
  | true =>
    rw [hraise, if_pos rfl] at hstream
    refine .inr ⟨hstream, ?_⟩
    by_contra hstart
    exact absurd ((hraises (Int.not_lt.mp hstart)).symm.trans hraise) nofun
  | false =>
    rw [hraise, if_neg Bool.false_ne_true] at hstream
    exact .inl hstream

/-- A block has been decoded, or the stream has run empty. -/
theorem Inv.continued {s : Playback} (h : s.Inv) (hphase : s.phase ≠ .outside) (c : Counted)
    (hcounters : c.counters.streamStart = s.counters.streamStart ∧
      c.counters.processSamples = s.counters.processSamples)
    (hstate : c.desc.streamState = s.streamState ∨
      c.desc.streamState = .buffering ∧ s.counters.streamStart < 0) (result : Bool) :
    (s.close ((s.setStream c).continued result)).Inv := by
  cases result with
  | true => exact h.changed hphase rfl rfl ⟨rfl, rfl⟩ hcounters hstate
  | false =>
    refine h.away ⟨?_, nofun, ?_, ?_⟩ rfl rfl nofun
    · exact le_of_le_of_eq h.elapsed hcounters.2.symm
    · intro hupdate
      exact absurd ((h.updated_of_phase hphase).symm.trans hupdate) nofun
    · intro hstart
      have hidle : (if c.desc.stopped = true ∧ s.session.state = .run then SourceState.idle
          else s.session.state) = .start := hstart
      split at hidle
      next => cases hidle
      next => exact absurd hidle (h.state_of_phase hphase)

/-- The end of buffering makes the stream active and its start pending. -/
theorem Inv.buffer {convert : ℚ → Int} (hconvert : Truncates convert) {s : Playback} (h : s.Inv)
    {i : CallInput} (hphase : s.phase = .buffering i)
    (hfits : s.streamState = .buffering →
      (s.desc.buffer (s.stream.decodeInput convert i)).2 = none →
        -1 < s.counters.position ∧ s.counters.position < 2147483648) :
    (s.close (s.buffer convert i)).Inv := by
  have hinside : s.phase ≠ .outside := by
    rw [hphase]
    exact nofun
  unfold Playback.buffer
  split
  next hbuffering =>
    obtain ⟨v, hv, ⟨r, hbuffer⟩ | hbuffer⟩ := s.desc.buffer_cases (s.stream.decodeInput convert i)
    · rw [hbuffer]
      exact h.continued hinside ⟨v, s.stream.moved i⟩ ⟨rfl, rfl⟩ (.inl hv.streamState) r
    · obtain ⟨hlow, hhigh⟩ := hfits hbuffering (by rw [hbuffer])
      have hstart : convert s.counters.position = trunc s.counters.position :=
        hconvert _ (by linarith) hhigh
      rw [hbuffer]
      dsimp only
      rw [close_of_active (by rfl)]
      -- a new episode begins
      refine ⟨⟨h.elapsed, nofun, ?_, ?_⟩, ?_, ⟨nofun, ?_, fun _ _ _ => rfl⟩, ?_, ?_⟩
      · intro hupdate
        exact absurd ((h.updated_of_phase hinside).symm.trans hupdate) nofun
      · intro hstarting
        exact absurd hstarting (h.state_of_phase hinside)
      · intro e he
        rcases List.mem_cons.mp he with rfl | he
        · exact h.good
        · exact h.past e he
      · rintro position - ⟨x, hx, -⟩
        cases hx
      · exact iff_of_true rfl nofun
      · intro position hposition _
        cases hposition
        exact .inl ⟨rfl, hstart, hlow, nofun, nofun⟩
  next hnot =>
    exact h.changed hinside rfl rfl ⟨rfl, rfl⟩ ⟨rfl, rfl⟩ (.inl rfl)

/-- The decoded block keeps it, unless the fourth missing block in a row ends the stream. -/
theorem Inv.decode (convert : ℚ → Int) {s : Playback} (h : s.Inv) {i : CallInput}
    (hphase : s.phase = .decoding i)
    (hmisses : 0 ≤ s.counters.streamStart →
      s.desc.missesFourth (s.stream.decodeInput convert i) = false) :
    (s.close (s.decode convert i)).Inv := by
  have hstream : (s.desc.decode (s.stream.decodeInput convert i)).1.streamState =
      if s.desc.missesFourth (s.stream.decodeInput convert i) then .buffering else s.streamState :=
    s.desc.streamState_decode _
  refine h.continued (by rw [hphase]; exact nofun) _ ⟨rfl, rfl⟩ ?_ _
  cases hmiss : s.desc.missesFourth (s.stream.decodeInput convert i) with
  | true =>
    rw [hmiss, if_pos rfl] at hstream
    refine .inr ⟨hstream, ?_⟩
    by_contra hstart
    exact absurd ((hmisses (Int.not_lt.mp hstart)).symm.trans hmiss) nofun
  | false =>
    rw [hmiss, if_neg Bool.false_ne_true] at hstream
    exact .inl hstream

/-! ## Samples -/

/-- Without a pending start there is no event. -/
theorem event_of_neg {s : Playback} (h : s.counters.streamStart < 0) (nsamples : Nat) :
    s.event nsamples = none := if_neg fun hc => absurd h (Int.not_lt.mpr hc.1)

/-- The event is due when the samples get to the position. -/
theorem event_of_pending {s : Playback} (h : 0 ≤ s.counters.processSamples) {position : ℚ}
    (hpending : s.episode.Pending position s.counters.streamStart) {nsamples : Nat}
    (hn : 0 < nsamples) : (s.event nsamples).isSome = true ↔
      position < ((s.counters.processSamples + nsamples : Int) : ℚ) := by
  have hstart := trunc_nonneg_of hpending.fits
  rw [← trunc_lt_iff hpending.fits (by omega), ← hpending.start]
  rw [← hpending.start] at hstart
  have hdue : (0 ≤ s.counters.streamStart ∧
      s.counters.streamStart - s.counters.processSamples < nsamples) ↔
        s.counters.streamStart < s.counters.processSamples + nsamples := by omega
  unfold event
  dsimp only
  split
  next h => exact iff_of_true rfl (hdue.mp h)
  next h => exact iff_of_false Bool.false_ne_true fun hlt => h (hdue.mpr hlt)

/-- `process` ends with samples: the episode goes on with the event, if it is due. -/
theorem Inv.finish {s : Playback} (h : s.Inv) (hphase : s.phase = .reading) {nsamples : Nat}
    (hn : 0 < nsamples) (hquiet : s.streamState = .inactive → s.counters.streamStart < 0) :
    (s.close (s.finish nsamples)).Inv := by
  have hinside : s.phase ≠ .outside := by
    rw [hphase]
    exact nofun
  have hupdate := h.updated_of_phase hinside
  have helapsed : 0 ≤ s.counters.processSamples + nsamples :=
    Int.add_nonneg h.elapsed (Int.natCast_nonneg _)
  -- what the call has given
  obtain ⟨x, hx⟩ : ∃ x : Heard,
      x = ⟨s.counters.processSamples, nsamples, s.event nsamples, s.streamState⟩ := ⟨_, rfl⟩
  have hevent : x.event = s.event nsamples := by rw [hx]
  have hend : ((x.start + x.nsamples : Int) : ℚ) =
      ((s.counters.processSamples + nsamples : Int) : ℚ) := by rw [hx]
  have hepisode : (s.finish nsamples).episode = s.episode.hear x := by
    rw [hx]
    rfl
  have hstart : (s.finish nsamples).counters.streamStart =
      if (s.event nsamples).isSome then -1 else s.counters.streamStart := rfl
  rw [close_of_same (by rfl)]
  have hsettled : (s.finish nsamples).Settled := by
    refine ⟨helapsed, ?_, ?_, ?_⟩
    · intro hbuffering
      rw [hstart]
      split
      · omega
      · exact h.buffering hbuffering
    · intro htrue
      exact absurd (hupdate.symm.trans htrue) nofun
    · intro hstarting
      exact absurd hstarting (h.state_of_phase hinside)
  cases hposition : s.episode.position with
  | none =>
    have hactive : s.streamState ≠ .active := fun ha => h.active_iff.mp ha hposition
    have hneg : s.counters.streamStart < 0 := by
      cases hstate : s.streamState with
      | active => exact absurd hstate hactive
      | buffering => exact h.buffering hstate
      | inactive => exact hquiet hstate
    refine ⟨hsettled, h.past, ?_, ?_, ?_⟩
    · rw [hepisode]
      exact h.good.wait hposition (hevent.trans (event_of_neg hneg nsamples))
    · exact iff_of_false hactive fun hne => hne hposition
    · intro position hsome
      exact absurd (hposition.symm.trans hsome) nofun
  | some position =>
    have hactive : s.streamState = .active := h.active_iff.mpr (by rw [hposition]; exact nofun)
    have hnext : (s.finish nsamples).episode.Pending position
          (s.finish nsamples).counters.streamStart ∨
        (s.finish nsamples).episode.Done position ∧
          (s.finish nsamples).counters.streamStart < 0 := by
      rw [hepisode, hstart]
      rcases h.current position hposition hupdate with hpending | ⟨hdone, hneg⟩
      · have hdue := event_of_pending h.elapsed hpending hn
        split
        next hsome =>
          refine .inr ⟨?_, by omega⟩
          refine hpending.report (by rw [hevent]; exact hsome) (by rw [hx]; exact hactive) ?_
          rw [hend]
          exact hdue.mp hsome
        next hnone =>
          have hlate := fun hlt => hnone (hdue.mpr hlt)
          refine .inl (hpending.wait ?_ ?_)
          · rw [hevent]
            exact Option.not_isSome_iff_eq_none.mp hnone
          · rw [hend]
            exact not_lt.mp hlate
      · have hnone := event_of_neg hneg nsamples
        rw [hnone]
        exact .inr ⟨hdone.wait (hevent.trans hnone), hneg⟩
    refine ⟨hsettled, h.past, ?_, ?_, ?_⟩
    · rcases hnext with hpending | ⟨hdone, -⟩
      · exact hpending.good
      · exact hdone.good
    · exact iff_of_true hactive (by
        rw [hepisode]
        exact fun hnone => absurd (hposition.symm.trans hnone) nofun)
    · intro other hother _
      rw [hepisode] at hother
      rw [show other = position from Option.some.inj (hother.symm.trans hposition)]
      exact hnext

/-- The read samples keep it: the event comes with the samples that pass the start. -/
theorem Inv.read {s : Playback} (h : s.Inv) (hphase : s.phase = .reading) {nsamples : Nat}
    (hn : 0 < nsamples) (hquiet : s.xrunblocks ≤ 1 / 10 → s.streamState = .inactive →
      s.counters.streamStart < 0) : (s.close (s.read nsamples)).Inv := by
  have hinside : s.phase ≠ .outside := by
    rw [hphase]
    exact nofun
  unfold Playback.read
  split
  next =>
    -- skipped samples only move the time
    refine h.kept ⟨?_, h.buffering, h.updated, h.starting⟩ rfl rfl rfl fun hfalse => ⟨hfalse, rfl⟩
    exact Int.add_nonneg h.elapsed (Int.natCast_nonneg _)
  next hplay => exact h.finish hphase hn (hquiet (not_lt.mp hplay))

/-! ## Runs -/

/-- So every step keeps it that leaves no start behind. -/
theorem Inv.step {convert : ℚ → Int} (hconvert : Truncates convert) {s : Playback} (h : s.Inv)
    (a : PlaybackAction) (ha : s.Lasting convert a) : (s.step convert a).Inv := by
  have hidle : (s.close s).Inv := by
    rw [close_self]
    exact h
  unfold Playback.step
  cases a with
  | handleStart a t =>
    unfold act
    dsimp only
    split
    next hphase => exact h.handleStart hphase a t
    next => exact hidle
  | reset u latencySamples =>
    unfold act
    dsimp only
    split
    next hphase => exact h.reset hphase u latencySamples
    next => exact hidle
  | handleStop stream => exact h.message (s.session.quiet_handleStop stream)
  | handleDecline token => exact h.message (s.session.quiet_handleDecline token)
  | handleData d timedOut => exact h.message (s.session.quiet_handleData d timedOut)
  | invite token => exact h.message ⟨rfl, rfl, nofun⟩
  | uninvite => exact h.message (s.session.quiet_uninvite)
  | inviteTimeout => exact h.message (s.session.quiet_inviteTimeout)
  | addXrun nblocks =>
    exact h.kept ⟨h.elapsed, h.buffering, h.updated, h.starting⟩ rfl rfl rfl
      fun hfalse => ⟨hfalse, rfl⟩
  | enter p =>
    unfold act
    dsimp only
    split
    next => exact h.enter p
    next => exact hidle
  | tryDecode i =>
    unfold act
    dsimp only
    split
    next hphase => exact h.tryDecode hphase i (ha hphase)
    next => exact hidle
  | buffer =>
    unfold act
    dsimp only
    split
    next i hphase => exact h.buffer hconvert hphase (ha i hphase)
    next => exact hidle
  | decode =>
    unfold act
    dsimp only
    split
    next i hphase => exact h.decode convert hphase (ha i hphase)
    next => exact hidle
  | read nsamples hn =>
    unfold act
    dsimp only
    split
    next hphase => exact h.read hphase hn (ha hphase)
    next => exact hidle

/-- **The event is only reported by an active stream**, and exactly once for each transition
that is not left again before its position: in every run that leaves no pending start behind
and whose positions fit. -/
theorem reported_run : ∀ convert, Truncates convert → ∀ as,
    StepsAll (step convert) (Lasting convert) {} as →
      ∀ e ∈ (as.foldl (step convert) {}).episodes, e.Good := by
  intro convert hconvert as hsteps
  have hinv : (as.foldl (step convert) {}).Inv :=
    StepsAll.invariant (I := Inv) (fun s a hs ha => hs.step hconvert a ha) inv_init hsteps as
      (List.prefix_refl as)
  intro e he
  rcases List.mem_cons.mp he with rfl | he
  · exact hinv.good
  · exact hinv.past e he

/-- A low-latency stream with blocks of 64 frames starts, 100 samples behind its first block. -/
def lateStart : PlaybackAction :=
  .handleStart ⟨7, 0, some ⟨1, 1, 1, 1, 64, 1024, 1, 48000, 64, 7, [0]⟩, some 64, true,
    ⟨64, 2, 1, 8, [], Nat.one_pos⟩, SourceDesc.StartArgs.range_zero⟩ ⟨64, 0, 0, 100⟩

/-- A block of such a stream. -/
def lateData (seq : Nat) : PlaybackAction :=
  .handleData ⟨⟨seq, 0, 0, 48000, 128, 0, 1, 0, List.replicate 128 0, kAooBinMsgDataLowLatency,
    1, 1, 1, UInt64.ofNat (64 * seq), 0, 64, 1⟩, 7⟩ false

theorem playCall_nsamples : 0 < 64 := by decide

/-- A call of `process()` that needs one block, with a latency of `target` frames. -/
def playCall (target : UInt32) : List PlaybackAction :=
  [.enter ⟨false, 0, []⟩, .tryDecode ⟨target, target.toNat, 64, true⟩, .buffer, .decode,
    .read 64 playCall_nsamples]

/-- The stream becomes active in the second call, at sample 164, which the third call gives. -/
theorem reported_late_start :
    let as := [lateStart, lateData 0, lateData 1] ++ playCall 64 ++ playCall 64 ++ playCall 64
    let s := as.foldl (step convertIndefinite) {}
    s.episode = ⟨some 164, [⟨64, 64, none, .active⟩, ⟨128, 64, some 36, .active⟩]⟩ ∧
      ∀ e ∈ s.episodes, e.Good := by
  intro as s
  refine ⟨by decide +kernel, ?_⟩
  exact reported_run convertIndefinite convertIndefinite_truncates as (by decide +kernel)

/-- With a higher latency target in the third call the stream buffers again, and is
reported as active. -/
theorem active_while_buffering :
    let as := [lateStart, lateData 0, lateData 1] ++ playCall 64 ++ playCall 64 ++ playCall 256
    let s := as.foldl (step convertIndefinite) {}
    s.streamState = .buffering ∧ s.episode.heard = [⟨128, 64, some 36, .buffering⟩] ∧
      ¬ ∀ e ∈ s.episodes, e.Good := by
  intro as s
  have hheard : s.episode.heard = [⟨128, 64, some 36, .buffering⟩] := by decide +kernel
  refine ⟨by decide +kernel, hheard, ?_⟩
  intro hgood
  have hactive := (hgood s.episode (List.mem_cons_self ..)).active
  rw [hheard] at hactive
  exact absurd (hactive _ (List.mem_singleton.mpr rfl) rfl) (by decide)

end Playback

end Aoo.Stream
