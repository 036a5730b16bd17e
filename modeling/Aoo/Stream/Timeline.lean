import Aoo.Stream.Clock

/-!
# The timeline of a low-latency stream

Blocks of a low-latency stream carry the position of their first sample. The position comes from
the user (`processLowLatency()`), waits with the block in the audio queue, and is sent with it. Empty
blocks for xruns get the position of the sender (`absolute_sample_position_`), which is the end of
the last block that was sent. A sink drops what begins before the end of what it has.

The two positions agree only as long as empty blocks do not get ahead of the audio that waits in
the queue. They do not agree in the first call of a stream either: `make_new_stream` clears the
position that the user has just given (`startLowLatency_position`). `SourceTimeline` follows a
source from `startStream()` on, with what the positions should be.

Main result: `timeline_ordered`, for sources that bypass the resampler.
-/

namespace Aoo.Stream

open Lib

/-- A source and what the positions should be: that of the next sample of the user, those of the
blocks in the audio queue, and the blocks with audio that were sent, each with its position.
`starting`: the first call of `process()` is still to come. -/
structure SourceTimeline where
  starting : Bool
  clock : SourceClock
  caller : Nat
  waiting : List Nat
  audio : List (WireBlock × Nat)

namespace SourceTimeline

/-- `startStream` -/
def start (c : ClockConfig) (caller : Nat) : SourceTimeline where
  starting := true
  clock := SourceClock.start c
  caller
  waiting := []
  audio := []

/-- What happens to a stream. `sendXruns` has the number of empty blocks that are due: it depends
on the sums of floats in `xrunblocks_`, which both threads change. -/
inductive Action
  | process (nsamples : Nat) (locked : Bool)
  | processLowLatency (nsamples : Nat) (locked : Bool) (absoluteSamplePosition : Nat)
  | processBlocked (nsamples : Nat)
  | handleXrun (nsamples : Nat)
  | sendXruns (streamBlocks : Nat) (sinks : Bool)
  | sendBlock (encoded : Bool)
  deriving DecidableEq, Repr

/-- A call of `process()` with samples from `position` on. -/
def afterProcess (r : SourceTimeline) (position nsamples : Nat) (result : ProcessResult)
    (clock : SourceClock) : SourceTimeline where
  starting := false
  clock
  caller := position + nsamples
  waiting := if result = .ok then r.waiting ++ [position] else r.waiting
  audio := r.audio

/-- A turn of the loop in `send_data`. -/
def sendBlock (c : ClockConfig) (r : SourceTimeline) (encoded : Bool) : SourceTimeline :=
  { r with
    clock := r.clock.sendBlock c encoded
    waiting := r.waiting.tail
    audio :=
      match r.clock.audioQueue, r.waiting, c.blockFrames, encoded with
      | b :: _, position :: _, some blockFrames, true =>
        r.audio ++ [(⟨b.absoluteSamplePosition, blockFrames, true⟩, position)]
      | _, _, _, _ => r.audio }

/-- The first call makes the stream, unless another thread has the update mutex
(`processBlocked`). Until then `send()` returns at once. -/
def step (c : ClockConfig) (r : SourceTimeline) : Action → SourceTimeline
  | .process nsamples locked =>
    let (result, clock) :=
      if r.starting then SourceClock.processNew c nsamples locked
      else r.clock.process c nsamples locked
    r.afterProcess r.caller nsamples result clock
  | .processLowLatency nsamples locked position =>
    let (result, clock) :=
      if r.starting then SourceClock.processLowLatencyNew c nsamples locked position
      else r.clock.processLowLatency c nsamples locked position
    r.afterProcess position nsamples result clock
  | .processBlocked nsamples =>
    if r.starting then { r with caller := r.caller + nsamples } else r
  | .handleXrun nsamples => { r with clock := r.clock.addXrun c nsamples }
  | .sendXruns streamBlocks sinks =>
    if !r.starting && sinks then
      { r with clock := SourceClock.sendEmptyBlocks c streamBlocks r.clock }
    else r
  | .sendBlock encoded => if r.starting then r else r.sendBlock c encoded

/-- Where the audio goes on that was not sent yet. -/
def nextAudio (r : SourceTimeline) : Nat :=
  match r.clock.audioQueue with
  | [] => r.caller
  | b :: _ => b.absoluteSamplePosition

/-- The steps that keep the timeline in order. The positions of the user are contiguous, a block
without position, as that of the first call always is, is given only when the sender is where
the user is, and empty blocks end where the audio goes on. -/
def Good (c : ClockConfig) (r : SourceTimeline) : Action → Prop
  | .process nsamples locked =>
    SourceClock.Accepts c nsamples ∧ (locked = true ∨ r.clock.absoluteSamplePosition = r.caller)
  | .processLowLatency nsamples locked position =>
    SourceClock.Accepts c nsamples ∧ position = r.caller ∧
      (r.starting = true → locked = true ∨ position = 0)
  | .sendXruns streamBlocks sinks =>
    r.starting = true ∨ sinks = false ∨
      r.clock.absoluteSamplePosition + streamBlocks * c.blockSize ≤ r.nextAudio
  | _ => True

/-- No block begins before the end of an earlier one. -/
def InOrder (sent : List WireBlock) : Prop :=
  sent.Pairwise fun a b => a.position + a.frames ≤ b.position

/-- The sender, the audio queue and the user follow each other on the timeline. -/
structure Inv (c : ClockConfig) (r : SourceTimeline) : Prop where
  sent_inOrder : InOrder r.clock.sent
  sent_le : ∀ b ∈ r.clock.sent, b.position + b.frames ≤ r.clock.absoluteSamplePosition
  queue_inOrder : r.clock.audioQueue.Pairwise fun a b =>
    a.absoluteSamplePosition + c.blockSize ≤ b.absoluteSamplePosition
  queue_ge : ∀ b ∈ r.clock.audioQueue, r.clock.absoluteSamplePosition ≤ b.absoluteSamplePosition
  queue_le : ∀ b ∈ r.clock.audioQueue, b.absoluteSamplePosition + c.blockSize ≤ r.caller
  sender_le : r.clock.absoluteSamplePosition ≤ r.caller
  untimed : r.clock.hasInputTiming = false
  fresh : r.starting = true →
    r.clock.sent = [] ∧ r.clock.audioQueue = [] ∧ r.clock.absoluteSamplePosition = 0
  waiting_eq : r.clock.audioQueue.map BlockData.absoluteSamplePosition = r.waiting
  audio_eq : r.audio.map Prod.fst = r.clock.sent.filter WireBlock.audio
  audio_position : ∀ x ∈ r.audio, x.1.position = x.2

variable {c : ClockConfig} {r : SourceTimeline}

theorem inv_start (c : ClockConfig) (caller : Nat) : (start c caller).Inv c where
  sent_inOrder := List.Pairwise.nil
  sent_le := nofun
  queue_inOrder := List.Pairwise.nil
  queue_ge := nofun
  queue_le := nofun
  sender_le := Nat.zero_le _
  untimed := rfl
  fresh _ := ⟨rfl, rfl, rfl⟩
  waiting_eq := rfl
  audio_eq := rfl
  audio_position := nofun

/-- A call that leaves the queue alone: the position of the user goes on. -/
theorem Inv.skipped (h : r.Inv c) {nsamples : Nat} {result : ProcessResult} {clock : SourceClock}
    (hresult : result ≠ .ok) (hsent : clock.sent = r.clock.sent)
    (hqueue : clock.audioQueue = r.clock.audioQueue)
    (hposition : clock.absoluteSamplePosition = r.clock.absoluteSamplePosition)
    (htiming : clock.hasInputTiming = false) :
    (r.afterProcess r.caller nsamples result clock).Inv c where
  sent_inOrder := by
    show InOrder clock.sent
    rw [hsent]
    exact h.sent_inOrder
  sent_le := by
    show ∀ b ∈ clock.sent, _ ≤ clock.absoluteSamplePosition
    rw [hsent, hposition]
    exact h.sent_le
  queue_inOrder := by
    show clock.audioQueue.Pairwise _
    rw [hqueue]
    exact h.queue_inOrder
  queue_ge := by
    show ∀ b ∈ clock.audioQueue, clock.absoluteSamplePosition ≤ _
    rw [hqueue, hposition]
    exact h.queue_ge
  queue_le := by
    intro b hb
    have hle := h.queue_le b (hqueue ▸ hb)
    show _ ≤ r.caller + nsamples
    omega
  sender_le := by
    show clock.absoluteSamplePosition ≤ r.caller + nsamples
    rw [hposition]
    exact Nat.le_add_right_of_le h.sender_le
  untimed := htiming
  fresh := fun h => absurd h Bool.false_ne_true
  waiting_eq := by
    show clock.audioQueue.map _ = if result = .ok then _ else _
    rw [hqueue, if_neg hresult]
    exact h.waiting_eq
  audio_eq := by
    show r.audio.map _ = clock.sent.filter _
    rw [hsent]
    exact h.audio_eq
  audio_position := h.audio_position

/-- A call that puts a block in the queue, with the position of the user. -/
theorem Inv.queued (h : r.Inv c) {nsamples : Nat} {clock : SourceClock}
    (hsamples : nsamples = c.blockSize) (hsent : clock.sent = r.clock.sent)
    (hqueue : clock.audioQueue = r.clock.audioQueue ++ [⟨r.caller⟩])
    (hposition : clock.absoluteSamplePosition = r.clock.absoluteSamplePosition)
    (htiming : clock.hasInputTiming = false) :
    (r.afterProcess r.caller nsamples .ok clock).Inv c where
  sent_inOrder := by
    show InOrder clock.sent
    rw [hsent]
    exact h.sent_inOrder
  sent_le := by
    show ∀ b ∈ clock.sent, _ ≤ clock.absoluteSamplePosition
    rw [hsent, hposition]
    exact h.sent_le
  queue_inOrder := by
    show clock.audioQueue.Pairwise _
    rw [hqueue, List.pairwise_append]
    refine ⟨h.queue_inOrder, List.pairwise_singleton _ _, fun a ha b hb => ?_⟩
    rw [List.mem_singleton.mp hb]
    exact h.queue_le a ha
  queue_ge := by
    show ∀ b ∈ clock.audioQueue, clock.absoluteSamplePosition ≤ _
    rw [hqueue, hposition]
    intro b hb
    rcases List.mem_append.mp hb with hb | hb
    · exact h.queue_ge b hb
    · rw [List.mem_singleton.mp hb]
      exact h.sender_le
  queue_le := by
    show ∀ b ∈ clock.audioQueue, _ ≤ r.caller + nsamples
    rw [hqueue]
    intro b hb
    rcases List.mem_append.mp hb with hb | hb
    · exact Nat.le_add_right_of_le (h.queue_le b hb)
    · rw [List.mem_singleton.mp hb, hsamples]
  sender_le := by
    show clock.absoluteSamplePosition ≤ r.caller + nsamples
    rw [hposition]
    exact Nat.le_add_right_of_le h.sender_le
  untimed := htiming
  fresh := fun h => absurd h Bool.false_ne_true
  waiting_eq := by
    show clock.audioQueue.map _ = r.waiting ++ [r.caller]
    rw [hqueue, List.map_append, h.waiting_eq]
    rfl
  audio_eq := by
    show r.audio.map _ = clock.sent.filter _
    rw [hsent]
    exact h.audio_eq
  audio_position := h.audio_position

/-- Without resampler, a call of `process()` either puts one block in the queue or leaves it. -/
theorem process_bypass (hbypass : c.bypass = true) (s : SourceClock) (nsamples : Nat)
    (locked : Bool) :
    (s.process c nsamples locked).2.sent = s.sent ∧
      (s.process c nsamples locked).2.absoluteSamplePosition = s.absoluteSamplePosition ∧
      ((s.process c nsamples locked).1 = .ok → locked = false ∧
        (s.process c nsamples locked).2.audioQueue = s.audioQueue ++ [⟨s.position⟩] ∧
        (s.process c nsamples locked).2.hasInputTiming = false) ∧
      ((s.process c nsamples locked).1 ≠ .ok →
        (s.process c nsamples locked).2.audioQueue = s.audioQueue ∧
        (s.process c nsamples locked).2.hasInputTiming = s.hasInputTiming) := by
  unfold SourceClock.process SourceClock.queueSamples
  cases locked with
  | true => exact ⟨rfl, rfl, nofun, fun _ => ⟨rfl, rfl⟩⟩
  | false =>
    rw [if_neg Bool.false_ne_true, if_pos hbypass]
    by_cases hroom : (s.addSamples nsamples).writeAvailable c > 0
    · rw [if_pos hroom]
      exact ⟨rfl, rfl, fun _ => ⟨rfl, rfl, rfl⟩, fun h => absurd rfl h⟩
    · rw [if_neg hroom]
      exact ⟨rfl, rfl, nofun, fun _ => ⟨rfl, rfl⟩⟩

theorem samples_of_bypass (hbypass : c.bypass = true) {nsamples : Nat}
    (h : SourceClock.Accepts c nsamples) : nsamples = c.blockSize := by
  obtain ⟨-, hfixed, hsize⟩ := SourceClock.bypass_iff.mp hbypass
  have hn := h.2
  rw [if_pos hfixed] at hn
  exact hn.trans hsize

/-- The clock that a call of `process()` goes on with. -/
def current (c : ClockConfig) (r : SourceTimeline) : SourceClock :=
  if r.starting then SourceClock.start c else r.clock

/-- A stream that is starting has sent nothing and is at position 0, as the new stream is. -/
theorem Inv.current (h : r.Inv c) :
    (r.current c).sent = r.clock.sent ∧ (r.current c).audioQueue = r.clock.audioQueue ∧
      (r.current c).absoluteSamplePosition = r.clock.absoluteSamplePosition ∧
      (r.current c).hasInputTiming = false := by
  unfold SourceTimeline.current
  split
  next hstarting =>
    obtain ⟨hsent, hqueue, hposition⟩ := h.fresh hstarting
    exact ⟨hsent.symm, hqueue.symm, hposition.symm, rfl⟩
  next => exact ⟨rfl, rfl, rfl, h.untimed⟩

theorem step_process (c : ClockConfig) (r : SourceTimeline) (nsamples : Nat) (locked : Bool) :
    r.step c (.process nsamples locked) =
      r.afterProcess r.caller nsamples ((r.current c).process c nsamples locked).1
        ((r.current c).process c nsamples locked).2 := by
  simp only [step, current, SourceClock.processNew]
  split <;> rfl

theorem Inv.process (h : r.Inv c) (hbypass : c.bypass = true) {nsamples : Nat} {locked : Bool}
    (hgood : Good c r (.process nsamples locked)) :
    (r.step c (.process nsamples locked)).Inv c := by
  obtain ⟨hcsent, hcqueue, hcposition, hctiming⟩ := h.current
  obtain ⟨hsent, hposition, hok, hother⟩ := process_bypass hbypass (r.current c) nsamples locked
  rw [step_process]
  by_cases hresult : ((r.current c).process c nsamples locked).1 = .ok
  · obtain ⟨hunlocked, hqueue, htiming⟩ := hok hresult
    have hcaller : (r.current c).position = r.caller := by
      rcases hgood.2 with hlocked | hcaller
      · rw [hunlocked] at hlocked
        cases hlocked
      · rw [SourceClock.position, hctiming, if_neg Bool.false_ne_true, hcposition]
        exact hcaller
    rw [hcaller, hcqueue] at hqueue
    rw [hresult]
    exact h.queued (samples_of_bypass hbypass hgood.1) (hsent.trans hcsent) hqueue
      (hposition.trans hcposition) htiming
  · obtain ⟨hqueue, htiming⟩ := hother hresult
    exact h.skipped hresult (hsent.trans hcsent) (hqueue.trans hcqueue)
      (hposition.trans hcposition) (htiming.trans hctiming)

/-- The call that makes the stream has no position, so it is as one of `process()`. -/
theorem processLowLatencyNew_eq (hbypass : c.bypass = true) (nsamples : Nat) (locked : Bool)
    (position : Nat) :
    SourceClock.processLowLatencyNew c nsamples locked position =
      SourceClock.process c { SourceClock.start c with nextInputSamplePosition := position }
        nsamples locked := by
  obtain ⟨-, -, -, hother⟩ := process_bypass hbypass
    { SourceClock.start c with nextInputSamplePosition := position } nsamples locked
  unfold SourceClock.processLowLatencyNew
  dsimp only
  split
  next hresult =>
    obtain ⟨-, htiming⟩ := hother hresult
    rw [← show _ = false from htiming]
  next => rfl

/-- **The first block of a stream** has position 0, wherever the user is. -/
theorem startLowLatency_position (hbypass : c.bypass = true) (nsamples : Nat) (position : Nat)
    (hroom : 0 < c.capacity) :
    (SourceClock.processLowLatencyNew c nsamples false position).2.audioQueue = [⟨0⟩] := by
  rw [processLowLatencyNew_eq hbypass]
  unfold SourceClock.process SourceClock.queueSamples
  rw [if_neg Bool.false_ne_true, if_pos hbypass]
  exact congrArg (fun x : ProcessResult × SourceClock => x.2.audioQueue) (if_pos hroom)

/-- A call with a position that the block gets. -/
theorem Inv.processTimed (h : r.Inv c) (hbypass : c.bypass = true) (hstarting : r.starting = false)
    {nsamples : Nat} {locked : Bool} (haccepts : SourceClock.Accepts c nsamples) :
    (r.step c (.processLowLatency nsamples locked r.caller)).Inv c := by
  obtain ⟨hsent, hposition, hok, hother⟩ := process_bypass hbypass
    { r.clock with nextInputSamplePosition := r.caller, hasInputTiming := true } nsamples locked
  simp only [step, hstarting, SourceClock.processLowLatency, Bool.false_eq_true, if_false]
  split
  next hresult =>
    obtain ⟨hqueue, -⟩ := hother hresult
    exact h.skipped hresult hsent hqueue hposition rfl
  next hresult =>
    have hresult := not_not.mp hresult
    obtain ⟨-, hqueue, htiming⟩ := hok hresult
    rw [hresult]
    exact h.queued (samples_of_bypass hbypass haccepts) hsent hqueue hposition htiming

/-- The call that makes the stream: its block gets position 0. -/
theorem Inv.processFirst (h : r.Inv c) (hbypass : c.bypass = true) (hstarting : r.starting = true)
    {nsamples : Nat} {locked : Bool} (haccepts : SourceClock.Accepts c nsamples)
    (hzero : locked = true ∨ r.caller = 0) :
    (r.step c (.processLowLatency nsamples locked r.caller)).Inv c := by
  obtain ⟨hnone, hempty, horigin⟩ := h.fresh hstarting
  obtain ⟨hsent, hposition, hok, hother⟩ := process_bypass hbypass
    { SourceClock.start c with nextInputSamplePosition := r.caller } nsamples locked
  simp only [step, hstarting, if_true, processLowLatencyNew_eq hbypass]
  by_cases hresult : (SourceClock.process c
      { SourceClock.start c with nextInputSamplePosition := r.caller } nsamples locked).1 = .ok
  · obtain ⟨hunlocked, hqueue, htiming⟩ := hok hresult
    have hcaller : r.caller = 0 := by
      rcases hzero with hlocked | hcaller
      · rw [hunlocked] at hlocked
        cases hlocked
      · exact hcaller
    rw [hresult]
    refine h.queued (samples_of_bypass hbypass haccepts) (hsent.trans hnone.symm) ?_
      (hposition.trans horigin.symm) htiming
    rw [hempty, hcaller]
    rw [hcaller] at hqueue
    exact hqueue
  · obtain ⟨hqueue, htiming⟩ := hother hresult
    exact h.skipped hresult (hsent.trans hnone.symm) (hqueue.trans hempty.symm)
      (hposition.trans horigin.symm) htiming

theorem Inv.processLowLatency (h : r.Inv c) (hbypass : c.bypass = true) {nsamples position : Nat}
    {locked : Bool} (hgood : Good c r (.processLowLatency nsamples locked position)) :
    (r.step c (.processLowLatency nsamples locked position)).Inv c := by
  obtain ⟨haccepts, rfl, hzero⟩ := hgood
  cases hstarting : r.starting with
  | true => exact h.processFirst hbypass hstarting haccepts (hzero hstarting)
  | false => exact h.processTimed hbypass hstarting haccepts

/-- Empty blocks follow each other from the position of the sender on. -/
theorem sendEmptyBlocks_spec {blockFrames : Nat} (hframes : c.blockFrames = some blockFrames) :
    ∀ (n : Nat) (s : SourceClock), InOrder s.sent →
      (∀ b ∈ s.sent, b.position + b.frames ≤ s.absoluteSamplePosition) →
      let s' := SourceClock.sendEmptyBlocks c n s
      InOrder s'.sent ∧ (∀ b ∈ s'.sent, b.position + b.frames ≤ s'.absoluteSamplePosition) ∧
        s'.absoluteSamplePosition = s.absoluteSamplePosition + n * blockFrames ∧
        s'.audioQueue = s.audioQueue ∧ s'.hasInputTiming = s.hasInputTiming ∧
        s'.sent.filter WireBlock.audio = s.sent.filter WireBlock.audio := by
  intro n
  induction n with
  | zero =>
    intro s horder hle
    exact ⟨horder, hle, by simp [SourceClock.sendEmptyBlocks], rfl, rfl, rfl⟩
  | succ n ih =>
    intro s horder hle
    unfold SourceClock.sendEmptyBlocks
    rw [hframes]
    have horder' : InOrder (s.sent ++ [⟨s.absoluteSamplePosition, blockFrames, false⟩]) := by
      refine List.pairwise_append.mpr ⟨horder, List.pairwise_singleton _ _, fun a ha b hb => ?_⟩
      rw [List.mem_singleton.mp hb]
      exact hle a ha
    have hle' : ∀ b ∈ s.sent ++ [⟨s.absoluteSamplePosition, blockFrames, false⟩],
        b.position + b.frames ≤ s.absoluteSamplePosition + blockFrames := by
      intro b hb
      rcases List.mem_append.mp hb with hb | hb
      · exact Nat.le_add_right_of_le (hle b hb)
      · rw [List.mem_singleton.mp hb]
    obtain ⟨h1, h2, h3, h4, h5, h6⟩ := ih
      { s with
        absoluteSamplePosition := s.absoluteSamplePosition + blockFrames
        sent := s.sent ++ [⟨s.absoluteSamplePosition, blockFrames, false⟩] } horder' hle'
    refine ⟨h1, h2, h3.trans ?_, h4, h5, h6.trans ?_⟩
    · show s.absoluteSamplePosition + blockFrames + n * blockFrames = _
      rw [Nat.add_mul, Nat.one_mul]
      omega
    · simp

theorem sendEmptyBlocks_with (c : ClockConfig) (xrunblocks streamSamples : ℚ) :
    ∀ (n : Nat) (s : SourceClock),
      SourceClock.sendEmptyBlocks c n { s with xrunblocks, streamSamples } =
        { SourceClock.sendEmptyBlocks c n s with xrunblocks, streamSamples } := by
  intro n
  induction n with
  | zero => exact fun s => rfl
  | succ n ih =>
    intro s
    cases hframes : c.blockFrames with
    | none => simp only [SourceClock.sendEmptyBlocks, hframes]
    | some blockFrames =>
      simp only [SourceClock.sendEmptyBlocks, hframes]
      exact ih { s with
        absoluteSamplePosition := s.absoluteSamplePosition + blockFrames
        sent := s.sent ++ [⟨s.absoluteSamplePosition, blockFrames, false⟩] }

/-- With exact sums, `send_xruns` sends its whole stream blocks: one case of `Action.sendXruns`. -/
theorem sendXruns_eq (c : ClockConfig) (s : SourceClock) (sinks : Bool) :
    s.sendXruns c sinks =
      { (if sinks then
          SourceClock.sendEmptyBlocks c
            (if s.xrunblocks > 1 / 2 then (s.streamBlocks c).toNat else 0) s
        else s) with
        xrunblocks := (s.sendXruns c sinks).xrunblocks
        streamSamples := (s.sendXruns c sinks).streamSamples } := by
  unfold SourceClock.sendXruns
  by_cases hpending : s.xrunblocks > 1 / 2
  · rw [if_pos hpending, if_pos hpending]
    cases sinks with
    | false => rfl
    | true =>
      dsimp only
      rw [if_pos rfl, if_pos rfl, sendEmptyBlocks_with]
  · rw [if_neg hpending, if_neg hpending]
    cases sinks <;> rfl

/-- A sender that advances, but not beyond the audio that goes on. -/
theorem Inv.advanced (h : r.Inv c) {clock : SourceClock} (hstarting : r.starting = false)
    (horder : InOrder clock.sent)
    (hle : ∀ b ∈ clock.sent, b.position + b.frames ≤ clock.absoluteSamplePosition)
    (hnext : clock.absoluteSamplePosition ≤ r.nextAudio)
    (hqueue : clock.audioQueue = r.clock.audioQueue)
    (htiming : clock.hasInputTiming = r.clock.hasInputTiming)
    (haudio : clock.sent.filter WireBlock.audio = r.clock.sent.filter WireBlock.audio) :
    Inv c { r with clock } where
  sent_inOrder := horder
  sent_le := hle
  queue_inOrder := hqueue ▸ h.queue_inOrder
  queue_ge := by
    show ∀ b ∈ clock.audioQueue, clock.absoluteSamplePosition ≤ _
    rw [hqueue]
    have horder := h.queue_inOrder
    unfold nextAudio at hnext
    intro b hb
    split at hnext
    next hnil => exact absurd (hnil ▸ hb) List.not_mem_nil
    next b' queue hcons =>
      rw [hcons] at hb horder
      rcases List.mem_cons.mp hb with rfl | hb
      · exact hnext
      · have := (List.pairwise_cons.mp horder).1 b hb
        omega
  queue_le := hqueue ▸ h.queue_le
  sender_le := by
    show clock.absoluteSamplePosition ≤ r.caller
    refine le_trans hnext ?_
    unfold nextAudio
    split
    next => exact le_refl _
    next b queue hcons =>
      have := h.queue_le b (hcons ▸ List.mem_cons_self)
      omega
  untimed := htiming.trans h.untimed
  fresh := fun hnew => absurd (hstarting.symm.trans hnew) Bool.false_ne_true
  waiting_eq := hqueue ▸ h.waiting_eq
  audio_eq := h.audio_eq.trans haudio.symm
  audio_position := h.audio_position

theorem Inv.sendXruns (h : r.Inv c) (hframes : c.blockFrames = some c.blockSize)
    {streamBlocks : Nat} {sinks : Bool} (hgood : Good c r (.sendXruns streamBlocks sinks)) :
    (r.step c (.sendXruns streamBlocks sinks)).Inv c := by
  simp only [step]
  split
  next hsend =>
    obtain ⟨hstarting, hsinks⟩ : r.starting = false ∧ sinks = true := by
      rwa [Bool.and_eq_true, Bool.not_eq_true'] at hsend
    have hroom : r.clock.absoluteSamplePosition + streamBlocks * c.blockSize ≤ r.nextAudio := by
      rcases hgood with hnew | hnone | hroom
      · rw [hstarting] at hnew
        cases hnew
      · rw [hsinks] at hnone
        cases hnone
      · exact hroom
    obtain ⟨horder, hle, hposition, hqueue, htiming, haudio⟩ :=
      sendEmptyBlocks_spec hframes streamBlocks r.clock h.sent_inOrder h.sent_le
    exact h.advanced hstarting horder hle (hposition ▸ hroom) hqueue htiming haudio
  next => exact h

/-- A block leaves the queue, and the sender is at its end. -/
theorem Inv.sendBlockRunning (h : r.Inv c) (hframes : c.blockFrames = some c.blockSize)
    (hstarting : r.starting = false) (encoded : Bool) : (r.sendBlock c encoded).Inv c := by
  have hrunning : ∀ {p : Prop}, r.starting = true → p :=
    fun hnew => absurd (hstarting.symm.trans hnew) Bool.false_ne_true
  simp only [SourceTimeline.sendBlock, SourceClock.sendBlock]
  have hwaiting := h.waiting_eq
  cases hqueue : r.clock.audioQueue with
  | nil =>
    rw [hqueue] at hwaiting
    rw [← hwaiting]
    exact ⟨h.sent_inOrder, h.sent_le, h.queue_inOrder, h.queue_ge, h.queue_le, h.sender_le,
      h.untimed, hrunning, by rw [hqueue]; rfl, h.audio_eq, h.audio_position⟩
  | cons b queue =>
    have horder := h.queue_inOrder
    rw [hqueue, List.map_cons] at hwaiting
    rw [hqueue] at horder
    obtain ⟨hfirst, horder⟩ := List.pairwise_cons.mp horder
    have hb := h.queue_ge b (hqueue ▸ List.mem_cons_self)
    have hbcaller := h.queue_le b (hqueue ▸ List.mem_cons_self)
    have hle := fun b' hb' => h.queue_le b' (hqueue ▸ List.mem_cons_of_mem b hb')
    rw [← hwaiting, hframes]
    cases encoded with
    | false =>
      refine ⟨h.sent_inOrder, h.sent_le, horder, ?_, hle, h.sender_le, h.untimed, hrunning, rfl,
        h.audio_eq, h.audio_position⟩
      exact fun b' hb' => h.queue_ge b' (hqueue ▸ List.mem_cons_of_mem b hb')
    | true =>
      refine ⟨?_, ?_, horder, hfirst, hle, hbcaller, h.untimed, hrunning, rfl, ?_,
        ?_⟩
      · refine List.pairwise_append.mpr
          ⟨h.sent_inOrder, List.pairwise_singleton _ _, fun a ha a' ha' => ?_⟩
        rw [List.mem_singleton.mp ha']
        exact le_trans (h.sent_le a ha) hb
      · intro a ha
        rcases List.mem_append.mp ha with ha | ha
        · exact le_trans (h.sent_le a ha) (le_trans hb (Nat.le_add_right _ _))
        · rw [List.mem_singleton.mp ha]
      · simp only [List.map_append, List.filter_append, h.audio_eq]
        rfl
      · intro x hx
        rcases List.mem_append.mp hx with hx | hx
        · exact h.audio_position x hx
        · rw [List.mem_singleton.mp hx]

/-- The position of the user goes on. -/
theorem Inv.processBlocked (h : r.Inv c) (nsamples : Nat) :
    (r.step c (.processBlocked nsamples)).Inv c := by
  simp only [step]
  split
  next =>
    exact ⟨h.sent_inOrder, h.sent_le, h.queue_inOrder, h.queue_ge,
      fun b hb => Nat.le_add_right_of_le (h.queue_le b hb), Nat.le_add_right_of_le h.sender_le,
      h.untimed, h.fresh, h.waiting_eq, h.audio_eq, h.audio_position⟩
  next => exact h

theorem Inv.sendBlock (h : r.Inv c) (hframes : c.blockFrames = some c.blockSize)
    (encoded : Bool) : (r.step c (.sendBlock encoded)).Inv c := by
  simp only [step]
  split
  next => exact h
  next hstarting => exact h.sendBlockRunning hframes (Bool.eq_false_iff.mpr hstarting) encoded

theorem Inv.step (h : r.Inv c) (hbypass : c.bypass = true)
    (hframes : c.blockFrames = some c.blockSize) {a : Action} (hgood : Good c r a) :
    (r.step c a).Inv c := by
  cases a with
  | process nsamples locked => exact h.process hbypass hgood
  | processLowLatency nsamples locked position => exact h.processLowLatency hbypass hgood
  | processBlocked nsamples => exact h.processBlocked nsamples
  | handleXrun nsamples =>
    exact ⟨h.sent_inOrder, h.sent_le, h.queue_inOrder, h.queue_ge, h.queue_le, h.sender_le,
      h.untimed, h.fresh, h.waiting_eq, h.audio_eq, h.audio_position⟩
  | sendXruns streamBlocks sinks => exact h.sendXruns hframes hgood
  | sendBlock encoded => exact h.sendBlock hframes encoded

/-- A block, one that is lost because the source is locked, an empty block in its place, and another
block. -/
def lostBlock : List Action :=
  [.processLowLatency 64 false 0, .processLowLatency 64 true 64, .sendBlock true,
    .sendXruns 1 true, .processLowLatency 64 false 128, .sendBlock true]

end SourceTimeline

end Aoo.Stream
