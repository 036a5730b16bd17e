import Aoo.Lib.Run
import Aoo.Stream.Depth

/-!
# The life of a stream

`source_desc` of `sink.cpp` around the jitter buffer: the state that messages,
invitations and `process` pass through, the packet queue between network and audio
thread, and the events for the user that a stream has started or stopped.

The events should alternate, beginning with a start. That a stream is open is not stored
anywhere: it is the case while the stream state is not inactive, or the source state is one
of `run`, `stop` and `uninvite` (`Bracketed`). Several transitions leave these states
without an event, or enter them from outside. Where none of them happens the
events bracket the streams (`events_bracket`).

Clocks are not modelled. Where they decide, the decision is an argument of the action.
-/

namespace Aoo.Stream

open Lib

/-- `source_state` -/
inductive SourceState
  | idle
  | run
  | stop
  | start
  | invite
  | uninvite
  | timeout
  deriving DecidableEq, Repr

/-- `kAooEventStreamStart` and `kAooEventStreamStop` -/
inductive StreamEvent
  | start
  | stop
  deriving DecidableEq, Repr

/-- `source_desc` with its state and its queue. The events are all that were sent, latest
first. -/
structure Session where
  desc : SourceDesc := {}
  state : SourceState := .idle
  inviteToken : Int := kAooIdInvalid
  didUpdate : Bool := false
  packetQueue : List NetPacket := []
  events : List StreamEvent := []
  deriving DecidableEq, Repr

namespace Session

/-! ## Messages and settings -/

/-- The jitter buffer has got another size. -/
def resized (s : Session) (desc : SourceDesc) : Bool :=
  s.desc.jitterBuffer.capacity != 0 &&
    s.desc.jitterBuffer.capacity != desc.jitterBuffer.capacity

/-- `source_desc::reset` -/
def reset (s : Session) (u : SourceDesc.UpdateArgs) : Session :=
  if s.desc.decoder.isSome then
    let desc := s.desc.update u
    { s with
      desc
      didUpdate := true
      packetQueue := if s.resized desc then [] else s.packetQueue }
  else s

/-- `source_desc::handle_start`. If the decoder refuses the format, the state stays. -/
def handleStart (s : Session) (a : SourceDesc.StartArgs) : Session :=
  if s.state = .invite ∧ a.streamId ≠ s.inviteToken then s
  else if a.streamId = s.desc.streamId then s
  else
    let desc := s.desc.handleStart a
    if desc.decoder.isSome then
      { s with
        desc
        didUpdate := true
        packetQueue := if a.format.isSome || s.resized desc then [] else s.packetQueue
        state := .start }
    else { s with desc }

/-- `source_desc::handle_stop` -/
def handleStop (s : Session) (stream : Int) : Session :=
  if stream = s.desc.streamId ∧ s.state ≠ .idle then { s with state := .stop } else s

/-- `source_desc::handle_decline` -/
def handleDecline (s : Session) (token : Int) : Session :=
  if token = s.inviteToken ∧ s.state = .invite then { s with state := .timeout } else s

/-- The packet has the header that was negotiated. -/
def negotiated (c : AooLowLatencyStreamConfiguration) (d : NetPacket) : Bool :=
  hasBit d.flags kAooBinMsgDataLowLatency && d.protocolVersion == c.protocolVersion &&
    d.transportProfile == c.profile && d.pcmFormat == c.pcmFormat &&
    d.blockFrames == c.blockFrames && d.channelCount == c.channelCount

/-- The checks of `handle_data` behind those of the state. -/
def accepts (s : SourceDesc) (d : NetPacket) : Bool :=
  d.streamId == s.streamId && s.decoder.isSome &&
    match s.lowLatency with
    | some c => negotiated c d &&
        !decide (d.absoluteSamplePosition + UInt64.ofNat d.blockFrames.toNat ≤
          s.lastAbsoluteSamplePosition)
    | none => !hasBit d.flags kAooBinMsgDataLowLatency

/-- `source_desc::handle_data`; `timedOut` is for an uninvitation that takes too long. -/
def handleData (s : Session) (d : NetPacket) (timedOut : Bool) : Session :=
  match s.state with
  | .uninvite => if timedOut then { s with state := .timeout } else s
  | .invite =>
    if d.streamId ≠ s.inviteToken then s
    else if accepts s.desc d then { s with packetQueue := s.packetQueue ++ [d] } else s
  | .timeout | .idle => s
  | .run | .stop | .start =>
    if accepts s.desc d then { s with packetQueue := s.packetQueue ++ [d] } else s

/-- `source_desc::invite` -/
def invite (s : Session) (token : Int) : Session :=
  { s with inviteToken := token, state := .invite }

/-- `source_desc::uninvite` -/
def uninvite (s : Session) : Session :=
  if s.state = .run then { s with state := .uninvite } else s

/-- `source_desc::send_invitations`, when the invitation has timed out. -/
def inviteTimeout (s : Session) : Session :=
  if s.state = .invite then { s with state := .timeout } else s

/-! ## `process` -/

/-- What clocks and resampler decide in `process`: the arguments of
`check_missing_blocks`, and those of `try_decode_block` for as many calls as the resampler
asks for. -/
structure ProcessInput where
  resendEnabled : Bool
  limit : Int
  due : List Bool
  decodes : List SourceDesc.DecodeInput

/-- The packets of the queue go to the jitter buffer. -/
def drainQueue (s : SourceDesc) (queue : List NetPacket) : SourceDesc :=
  if queue.isEmpty then s
  else
    let s := if s.underrun then s.handleUnderrun else s
    queue.foldl (fun s d => (s.addPacket d).1) s

/-- Blocks are decoded until the resampler is satisfied, or there is none. -/
def decodeBlocks : List SourceDesc.DecodeInput → SourceDesc → SourceDesc × Bool
  | [], s => (s, true)
  | i :: is, s =>
    match s.tryDecodeBlock i with
    | (s, true) => decodeBlocks is s
    | (s, false) => (s, false)

/-- `source_desc::on_underrun` -/
def onUnderrun (s : Session) : Session :=
  { s with
    desc := { s.desc with streamState := .inactive, underrun := true }
    events := if s.desc.stopped then .stop :: s.events else s.events
    state := if s.desc.stopped ∧ s.state = .run then .idle else s.state }

/-- `process` behind the transitions of the state. -/
def playback (s : Session) (p : ProcessInput) : Session :=
  let desc := if s.didUpdate then { s.desc with streamState := .buffering } else s.desc
  let desc := drainQueue desc s.packetQueue
  let desc := desc.checkMissingBlocks p.resendEnabled p.limit p.due
  let s := { s with didUpdate := false, packetQueue := [] }
  match decodeBlocks p.decodes desc with
  | (desc, true) => { s with desc }
  | (desc, false) => { s with desc }.onUnderrun

/-- The stream starts; a stream that is still open is stopped. -/
def begin (s : Session) : Session :=
  { s with
    desc := { s.desc with streamState := .buffering }
    state := .run
    events := .start ::
      if s.desc.streamState ≠ .inactive then .stop :: s.events else s.events }

/-- `source_desc::process` -/
def process (s : Session) (p : ProcessInput) : Session :=
  if s.desc.decoder.isSome then
    match s.state with
    | .start => s.begin.playback p
    | .stop => { s with desc := { s.desc with stopped := true }, state := .run }.playback p
    | .run | .uninvite => s.playback p
    | .invite | .timeout | .idle => { s with desc := { s.desc with streamState := .inactive } }
  else s

inductive Action
  | handleStart (a : SourceDesc.StartArgs)
  | handleStop (stream : Int)
  | handleDecline (token : Int)
  | handleData (d : NetPacket) (timedOut : Bool)
  | invite (token : Int)
  | uninvite
  | inviteTimeout
  | reset (u : SourceDesc.UpdateArgs)
  | process (p : ProcessInput)

def step (s : Session) : Action → Session
  | .handleStart a => s.handleStart a
  | .handleStop stream => s.handleStop stream
  | .handleDecline token => s.handleDecline token
  | .handleData d timedOut => s.handleData d timedOut
  | .invite token => s.invite token
  | .uninvite => s.uninvite
  | .inviteTimeout => s.inviteTimeout
  | .reset u => s.reset u
  | .process p => s.process p

/-! ## A session is a run of the receiving side -/

/-- Queued packets leave the settings alone. -/
theorem drainQueue_keeps (s : SourceDesc) (queue : List NetPacket) :
    s.Keeps (drainQueue s queue) := by
  have hfold : ∀ (queue : List NetPacket) (t : SourceDesc), s.Keeps t →
      s.Keeps (queue.foldl (fun s d => (s.addPacket d).1) t) := by
    intro queue
    induction queue with
    | nil => exact fun t ht => ht
    | cons d queue ih => exact fun t ht => ih _ (ht.trans (t.steady_addPacket d).toKeeps)
  unfold drainQueue
  split
  next => exact .refl s
  next =>
    refine hfold queue _ ?_
    split
    next => exact ⟨rfl, rfl, rfl, rfl, rfl⟩
    next => exact .refl s

/-- Decoding keeps decoder and stop flag. -/
theorem decodeBlocks_frame (is : List SourceDesc.DecodeInput) (s : SourceDesc) :
    (decodeBlocks is s).1.decoder = s.decoder ∧ (decodeBlocks is s).1.stopped = s.stopped := by
  have htry : ∀ (s : SourceDesc) (i : SourceDesc.DecodeInput),
      (s.tryDecodeBlock i).1.decoder = s.decoder ∧
        (s.tryDecodeBlock i).1.stopped = s.stopped := by
    intro s i
    obtain ⟨m, hdrain⟩ := s.tryDecodeBlock_drains i
    obtain ⟨-, -, -, -, -, hdecoder, -, hstopped⟩ := s.retarget_frame i.target
    exact ⟨hdrain.keeps.decoder.trans hdecoder, hdrain.keeps.stopped.trans hstopped⟩
  induction is generalizing s with
  | nil => exact ⟨rfl, rfl⟩
  | cons i is ih =>
    have h := htry s i
    unfold decodeBlocks
    split
    next t heq =>
      rw [heq] at h
      exact ⟨(ih t).1.trans h.1, (ih t).2.trans h.2⟩
    next t heq =>
      rw [heq] at h
      exact h

/-- The stream before it is decoded. -/
def filled (s : Session) (p : ProcessInput) : SourceDesc :=
  (drainQueue (if s.didUpdate then { s.desc with streamState := .buffering } else s.desc)
    s.packetQueue).checkMissingBlocks p.resendEnabled p.limit p.due

/-- So does the head of `process`. -/
theorem filled_frame (s : Session) (p : ProcessInput) :
    (s.filled p).decoder = s.desc.decoder ∧ (s.filled p).stopped = s.desc.stopped := by
  have h := (drainQueue_keeps (if s.didUpdate then { s.desc with streamState := .buffering }
    else s.desc) s.packetQueue).trans (SourceDesc.steady_checkMissingBlocks _ p.resendEnabled
      p.limit p.due).toKeeps
  refine ⟨h.decoder.trans ?_, h.stopped.trans ?_⟩
  · split <;> rfl
  · split <;> rfl

/-! ## Start and stop events -/

/-- Start and stop events alternate, beginning with a start; the latest event is the first of
the list. -/
structure Alternates (es : List StreamEvent) : Prop where
  chain : es.IsChain (· ≠ ·)
  first : es.getLast? ≠ some .stop

/-- The latest event is a start. -/
def Opened (es : List StreamEvent) : Prop := es.head? = some .start

/-- A start may follow a stop. -/
theorem Alternates.start {es : List StreamEvent} (h : Alternates es) (ho : ¬ Opened es) :
    Alternates (.start :: es) := by
  cases es with
  | nil => exact ⟨.singleton _, nofun⟩
  | cons e es =>
    refine ⟨.cons_cons (fun he => ho ?_) h.chain, h.first⟩
    rw [Opened, ← he]
    rfl

/-- A stop may follow a start. -/
theorem Alternates.stop {es : List StreamEvent} (h : Alternates es) (ho : Opened es) :
    Alternates (.stop :: es) := by
  cases es with
  | nil => cases ho
  | cons e es =>
    injection ho with he
    refine ⟨.cons_cons ?_ h.chain, h.first⟩
    rw [he]
    exact nofun

theorem opened_start (es : List StreamEvent) : Opened (.start :: es) := rfl

theorem not_opened_stop (es : List StreamEvent) : ¬ Opened (.stop :: es) := nofun

/-- A stream is open in these states even after an underrun. -/
def Running : SourceState → Prop
  | .run | .stop | .uninvite => True
  | .idle | .start | .invite | .timeout => False

instance : DecidablePred Running
  | .run | .stop | .uninvite => .isTrue trivial
  | .idle | .start | .invite | .timeout => .isFalse id

/-- The events alternate, and an open stream shows in the states. -/
structure Bracketed (s : Session) : Prop where
  alternates : Alternates s.events
  opened : Opened s.events ↔ s.desc.streamState ≠ .inactive ∨ Running s.state
  idle : s.state = .idle → s.desc.streamState = .inactive

/-- The transitions that leave an open stream without a stop event, or stop a
stream that is not open, do not happen. -/
def Orderly (s : Session) : Action → Prop
  -- The last stream has run empty without `/stop`; it is then not stopped by the new one.
  | .handleStart a => a.streamId ≠ s.desc.streamId → Running s.state →
      s.desc.streamState ≠ .inactive
  | .invite _ => Running s.state → s.desc.streamState ≠ .inactive
  -- A `/stop` for a stream that has not been processed yet, or not any more.
  | .handleStop stream => stream = s.desc.streamId → s.state ≠ .idle → ¬ Running s.state →
      s.desc.streamState ≠ .inactive
  | .handleData _ timedOut => s.state = .uninvite → timedOut = true →
      s.desc.streamState ≠ .inactive
  -- An invitation deactivates an open stream without stopping it; an uninvited
  -- stream that was stopped before sends a stop event with each underrun.
  | .process _ => s.desc.decoder.isSome = true →
      (s.state = .invite ∨ s.state = .timeout → s.desc.streamState = .inactive) ∧
        ¬ (s.state = .uninvite ∧ s.desc.stopped = true)
  | _ => True

instance (s : Session) : DecidablePred s.Orderly
  | .handleStart _ => inferInstanceAs (Decidable (_ → _ → _ ≠ _))
  | .invite _ => inferInstanceAs (Decidable (_ → _ ≠ _))
  | .handleStop _ => inferInstanceAs (Decidable (_ → _ → _ → _ ≠ _))
  | .handleData _ _ => inferInstanceAs (Decidable (_ → _ → _ ≠ _))
  | .process _ => inferInstanceAs (Decidable (_ → _ ∧ _))
  | .handleDecline _ | .uninvite | .inviteTimeout | .reset _ => .isTrue trivial

/-- `update` leaves the stream state to `process`. -/
theorem streamState_update (s : SourceDesc) (u : SourceDesc.UpdateArgs) :
    (s.update u).streamState = s.streamState := by
  unfold SourceDesc.update
  split <;> rfl

/-- So does a new stream. -/
theorem streamState_restart (s : SourceDesc) (a : SourceDesc.StartArgs) :
    (s.restart a).streamState = s.streamState := by
  have hhead : ∀ (t : SourceDesc) (b : JitterBuffer),
      ({ t with jitterBuffer := b } : SourceDesc).streamState = t.streamState := fun _ _ => rfl
  exact (hhead (s.update a.update) _).trans (streamState_update s a.update)

/-- So does `/start` itself. -/
theorem streamState_handleStart (s : SourceDesc) (a : SourceDesc.StartArgs) :
    (s.handleStart a).streamState = s.streamState := by
  unfold SourceDesc.handleStart
  split
  next => rfl
  next =>
    simp only
    split
    next =>
      split
      next => exact streamState_restart _ a
      next => rfl
    next =>
      split
      next => exact streamState_restart _ a
      next => rfl

/-- What `process` does with a stream that is not stopped or has enough blocks, and
with one that is stopped and has run empty. -/
theorem playback_cases (s : Session) (p : ProcessInput) :
    ((s.playback p).events = s.events ∧ (s.playback p).state = s.state) ∨
      (s.desc.stopped = true ∧ (s.playback p).events = .stop :: s.events ∧
        (s.playback p).desc.streamState = .inactive ∧
        (s.playback p).state = if s.state = .run then .idle else s.state) := by
  have hframe := (decodeBlocks_frame p.decodes (s.filled p)).2.trans (s.filled_frame p).2
  unfold playback
  simp only
  split
  next => exact .inl ⟨rfl, rfl⟩
  next t heq =>
    rw [show decodeBlocks p.decodes (s.filled p) = (t, false) from heq] at hframe
    replace hframe : t.stopped = s.desc.stopped := hframe
    cases hstopped : s.desc.stopped with
    | false =>
      refine .inl ⟨?_, ?_⟩
      · simp [onUnderrun, hframe, hstopped]
      · simp [onUnderrun, hframe, hstopped]
    | true =>
      refine .inr ⟨rfl, ?_, rfl, ?_⟩
      · simp [onUnderrun, hframe, hstopped]
      · simp [onUnderrun, hframe, hstopped]

/-- `process` for an open stream. -/
theorem Bracketed.playback {s : Session} (h : Alternates s.events) (ho : Opened s.events)
    (hrun : s.state = .run ∨ (s.state = .uninvite ∧ s.desc.stopped = false)) (p : ProcessInput) :
    Bracketed (s.playback p) := by
  have hrunning : Running s.state := by
    rcases hrun with hrun | ⟨hrun, -⟩
    · rw [hrun]
      trivial
    · rw [hrun]
      trivial
  rcases s.playback_cases p with ⟨hev, hst⟩ | ⟨hstopped, hev, hinactive, hst⟩
  · refine ⟨hev ▸ h, iff_of_true (hev ▸ ho) (.inr (hst ▸ hrunning)), fun hidle => ?_⟩
    rw [← hst, hidle] at hrunning
    exact hrunning.elim
  · have hrun : s.state = .run := by
      rcases hrun with hrun | ⟨-, hfalse⟩
      · exact hrun
      · rw [hfalse] at hstopped
        cases hstopped
    rw [if_pos hrun] at hst
    refine ⟨hev ▸ h.stop ho, iff_of_false (hev ▸ not_opened_stop _) ?_, fun _ => hinactive⟩
    rw [hinactive, hst]
    exact fun hor => hor.elim (fun hne => hne rfl) id

/-- An orderly `process` keeps the events in brackets. -/
theorem Bracketed.process {s : Session} (h : Bracketed s) (p : ProcessInput)
    (hC : s.Orderly (.process p)) : Bracketed (s.process p) := by
  unfold Session.process
  split
  next hd =>
    obtain ⟨hquiet, hstop⟩ := hC hd
    have hopen : Running s.state → Opened s.events := fun hr => h.opened.mpr (.inr hr)
    -- The stream is inactive before and after.
    have hinactive : s.desc.streamState = .inactive → ¬ Running s.state →
        Bracketed { s with desc := { s.desc with streamState := .inactive } } := by
      intro hin hrun
      refine ⟨h.alternates, ?_, fun _ => rfl⟩
      rw [h.opened, hin]
    split
    next hst =>
      refine Bracketed.playback (s := s.begin) ?_ (opened_start _) (.inl rfl) p
      unfold begin
      simp only
      have hopened : Opened s.events ↔ s.desc.streamState ≠ .inactive := by
        rw [h.opened, hst]
        exact or_iff_left id
      split
      next hactive => exact (h.alternates.stop (hopened.mpr hactive)).start (not_opened_stop _)
      next hactive => exact h.alternates.start fun ho => hactive (hopened.mp ho)
    next hst =>
      exact Bracketed.playback
        (s := { s with desc := { s.desc with stopped := true }, state := .run })
        h.alternates (hopen (by rw [hst]; trivial)) (.inl rfl) p
    next hst => exact Bracketed.playback h.alternates (hopen (by rw [hst]; trivial)) (.inl hst) p
    next hst =>
      refine Bracketed.playback h.alternates (hopen (by rw [hst]; trivial)) (.inr ⟨hst, ?_⟩) p
      exact Bool.eq_false_iff.mpr fun hstopped => hstop ⟨hst, hstopped⟩
    next hst => exact hinactive (hquiet (.inl hst)) (by rw [hst]; exact id)
    next hst => exact hinactive (hquiet (.inr hst)) (by rw [hst]; exact id)
    next hst => exact hinactive (h.idle hst) (by rw [hst]; exact id)
  next => exact h

/-- An action that sends no event keeps the brackets if open streams stay visible. -/
theorem Bracketed.quiet {s t : Session} (h : Bracketed s) (hev : t.events = s.events)
    (hstream : t.desc.streamState = s.desc.streamState)
    (hstate : s.desc.streamState ≠ .inactive ∨ (Running t.state ↔ Running s.state))
    (hidle : t.state = .idle → s.state = .idle) : Bracketed t := by
  refine ⟨hev ▸ h.alternates, ?_, fun ht => hstream ▸ h.idle (hidle ht)⟩
  rw [hev, hstream, h.opened]
  rcases hstate with hactive | hiff
  · exact iff_of_true (.inl hactive) (.inl hactive)
  · rw [hiff]

/-- Every orderly action keeps the events in brackets. -/
theorem Bracketed.action {s : Session} (h : Bracketed s) (a : Action) (hC : s.Orderly a) :
    Bracketed (s.step a) := by
  have hdec : s.desc.streamState ≠ .inactive ∨ s.desc.streamState = .inactive :=
    (Decidable.em _).symm
  cases a with
  | handleStart a =>
    have hstream := streamState_handleStart s.desc a
    change Bracketed (s.handleStart a)
    unfold handleStart
    split
    next => exact h
    next =>
      split
      next => exact h
      next hid =>
        simp only
        split
        next =>
          refine h.quiet rfl hstream ?_ nofun
          rcases hdec with hactive | hinactive
          · exact .inl hactive
          · exact .inr (iff_of_false id fun hrun => hC hid hrun hinactive)
        next => exact h.quiet rfl hstream (.inr Iff.rfl) id
  | handleStop stream =>
    change Bracketed (s.handleStop stream)
    unfold handleStop
    split
    next hcond =>
      refine h.quiet rfl rfl ?_ nofun
      rcases hdec with hactive | hinactive
      · exact .inl hactive
      · refine .inr (iff_of_true trivial ?_)
        by_contra hrun
        exact hC hcond.1 hcond.2 hrun hinactive
    next => exact h
  | handleDecline token =>
    change Bracketed (s.handleDecline token)
    unfold handleDecline
    split
    next hcond => exact h.quiet rfl rfl (.inr (by rw [hcond.2]; exact Iff.rfl)) nofun
    next => exact h
  | handleData d timedOut =>
    -- A packet that is queued is not seen by the invariant.
    have hqueue : Bracketed { s with packetQueue := s.packetQueue ++ [d] } :=
      h.quiet rfl rfl (.inr Iff.rfl) id
    change Bracketed (s.handleData d timedOut)
    unfold handleData
    split
    next hst =>
      split
      next htime => exact h.quiet rfl rfl (.inl (hC hst htime)) nofun
      next => exact h
    next =>
      split
      next => exact h
      next => split <;> assumption
    next => exact h
    next => exact h
    next => split <;> assumption
    next => split <;> assumption
    next => split <;> assumption
  | invite token =>
    refine h.quiet rfl rfl ?_ nofun
    rcases hdec with hactive | hinactive
    · exact .inl hactive
    · exact .inr (iff_of_false id fun hrun => hC hrun hinactive)
  | uninvite =>
    change Bracketed s.uninvite
    unfold uninvite
    split
    next hst => exact h.quiet rfl rfl (.inr (by rw [hst]; exact Iff.rfl)) nofun
    next => exact h
  | inviteTimeout =>
    change Bracketed s.inviteTimeout
    unfold inviteTimeout
    split
    next hst => exact h.quiet rfl rfl (.inr (by rw [hst]; exact Iff.rfl)) nofun
    next => exact h
  | reset u =>
    have hstream := streamState_update s.desc u
    change Bracketed (s.reset u)
    unfold reset
    split
    next => exact h.quiet rfl hstream (.inr Iff.rfl) id
    next => exact h
  | process p => exact h.process p hC

/-- No event has been sent. -/
theorem bracketed_init : Bracketed {} :=
  ⟨⟨.nil, nofun⟩, iff_of_false nofun (by simp [Running]), fun _ => rfl⟩

/-- **Start and stop events bracket streams**: in a run without the transitions that
`Orderly` names, the events that were sent always alternate, beginning with a start. -/
theorem events_bracket (as : List Action) (h : StepsAll step Orderly {} as) :
    ∀ bs, bs <+: as → Alternates (bs.foldl step ({} : Session)).events := by
  intro bs hbs
  exact (StepsAll.invariant (I := Bracketed) (fun s a hs hC => hs.action a hC) bracketed_init h
    bs hbs).alternates

/-- A stream with blocks of 64 frames and a latency of two blocks starts. -/
def plainStart (stream : Int) : Action :=
  .handleStart ⟨stream, 0, none, some 64, true, ⟨0, 2, 1, 4, [], Nat.one_pos⟩,
    SourceDesc.StartArgs.range_zero⟩

/-- A block of such a stream arrives. -/
def plainData (stream seq : Int) : Action :=
  .handleData ⟨⟨seq, 0, 0, 48000, 128, 0, 1, 0, List.replicate 128 0, 0, 0, 0, 0, 0, 0, 0, 0⟩,
    stream⟩ false

/-- One block of output. -/
def plainProcess : Action := .process ⟨false, 0, [], [⟨0, false, false, true⟩]⟩

/-- Three streams: the first is stopped and played to its end, the second replaced by the
third while it plays. -/
def threeStreams : List Action :=
  [plainStart 7, plainProcess, plainData 7 0, plainData 7 1, plainProcess, .handleStop 7,
    plainProcess, plainProcess, plainStart 8, plainProcess, plainData 8 0, plainData 8 1,
    plainProcess, plainStart 9, plainProcess]

theorem events_three_streams :
    (threeStreams.foldl step ({} : Session)).events = [.start, .stop, .start, .stop, .start] ∧
      Alternates (threeStreams.foldl step ({} : Session)).events := by
  have horderly : StepsAll step Orderly ({} : Session) threeStreams := by decide +kernel
  refine ⟨by decide +kernel, ?_⟩
  exact events_bracket threeStreams horderly threeStreams (List.prefix_refl _)

/-- The buffer runs empty without `/stop`; then another stream starts. -/
theorem two_starts_after_underrun :
    let as := [plainStart 7, plainProcess, plainData 7 0, plainData 7 1, plainProcess,
      plainProcess, plainProcess, plainStart 8, plainProcess]
    (as.foldl step ({} : Session)).events = [.start, .start] ∧
      ¬ Alternates (as.foldl step ({} : Session)).events := by
  intro as
  have hevents : (as.foldl step ({} : Session)).events = [.start, .start] := by decide +kernel
  refine ⟨hevents, fun h => ?_⟩
  rw [hevents] at h
  exact absurd h.chain (by decide)

/-- A stream that plays its last blocks is uninvited: each underrun sends a stop event. -/
example : ([plainStart 7, plainProcess, plainData 7 0, plainData 7 1, plainProcess, .handleStop 7,
    plainProcess, .uninvite, plainProcess, plainProcess].foldl step ({} : Session)).events =
      [.stop, .stop, .start] := by
  decide +kernel

end Session

end Aoo.Stream
