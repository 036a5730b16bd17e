import Aoo.Apple.Handoff
import Aoo.Lib.Chunks

/-!
# The timeline of the sender

What the calls of the callback say, cut into blocks: block `k` of a channel has the frames
from `k * streamBlockSize` on, counted from the first call. `IsBlock` and `IsGap` say that
what stands in a slot is block `k`, `Pending` that the callback has got that far with the
next one.

**Main results.** `Pending.copyFrames`: a turn of the loop over the frames takes the next
part of the timeline. `Pending.isBlock`: a complete block is a block of the timeline.
-/

namespace Aoo.Apple

open Lib

/-! ## What the calls say -/

namespace EnqueueCall

/-- The sample of a frame, silence for what is not finite. -/
def sample (c : EnqueueCall) (sourceChannel frame : Nat) : AooSample :=
  if c.isSilence then 0
  else finiteSample (c.planarBaseAddress.getD
    (sourceChannel * c.channelStride + c.frameOffset + frame) 0)

def samples (c : EnqueueCall) (sourceChannel : Nat) : List AooSample :=
  (List.range c.frameCount).map (c.sample sourceChannel)

/-- A call has as many samples as frames. -/
theorem samples_length (c : EnqueueCall) (sourceChannel : Nat) :
    (c.samples sourceChannel).length = c.frameCount := by
  rw [samples, List.length_map, List.length_range]

end EnqueueCall

/-- What is copied is the next part of the call's samples. -/
theorem copied_eq (c : EnqueueCall) (sourceChannel : Nat) {consumed n : Nat}
    (h : consumed + n ≤ c.frameCount) :
    AOOAppleSender.copied c sourceChannel consumed n =
      ((c.samples sourceChannel).drop consumed).take n := by
  have hlen : (AOOAppleSender.copied c sourceChannel consumed n).length = n := by
    unfold AOOAppleSender.copied
    split
    next => rw [List.length_replicate]
    next => rw [List.length_map, List.length_range]
  have hsamples := c.samples_length sourceChannel
  refine List.ext_getElem (by rw [hlen, List.length_take, List.length_drop]; omega) ?_
  intro i hi _
  rw [hlen] at hi
  simp only [List.getElem_take, List.getElem_drop, EnqueueCall.samples, List.getElem_map,
    List.getElem_range, AOOAppleSender.copied, EnqueueCall.sample]
  split
  next => rw [List.getElem_replicate]
  next => rw [List.getElem_map, List.getElem_range, Nat.add_assoc _ consumed i]

/-- The calls of a run and where their blocks went. -/
structure Timeline where
  sourceChannelIndices : List Nat
  streamBlockSize : Nat
  generation : Nat
  calls : List EnqueueCall
  fates : List Fate

namespace Timeline

/-- The position of the first frame. -/
def first (t : Timeline) : Nat :=
  match t.calls with
  | [] => 0
  | c :: _ => c.sourceSamplePosition

def frames (t : Timeline) : Nat := (t.calls.map (·.frameCount)).sum

/-- All samples of a channel. -/
def signal (t : Timeline) (channel : Nat) : List AooSample :=
  t.calls.flatMap fun c => c.samples (t.sourceChannelIndices.getD channel 0)

/-- The position of block `k`. -/
def position (t : Timeline) (k : Nat) : Nat := t.first + k * t.streamBlockSize

/-- The samples of block `k`. -/
def block (t : Timeline) (k channel : Nat) : List AooSample :=
  chunk (t.signal channel) t.streamBlockSize k

def channelCount (t : Timeline) : Nat := t.sourceChannelIndices.length

def silence (t : Timeline) : List AooSample := List.replicate t.streamBlockSize 0

/-- The signal of a channel has all frames. -/
theorem signal_length (t : Timeline) (channel : Nat) : (t.signal channel).length = t.frames := by
  rw [signal, frames, List.length_flatMap]
  simp only [EnqueueCall.samples_length]

/-- The frames of block `k` have been given. -/
def Complete (t : Timeline) (k : Nat) : Prop := (k + 1) * t.streamBlockSize ≤ t.frames

/-- There is a call or a decision more. -/
structure Extends (t t' : Timeline) : Prop where
  indices : t'.sourceChannelIndices = t.sourceChannelIndices
  size : t'.streamBlockSize = t.streamBlockSize
  generation : t'.generation = t.generation
  calls : t.calls <+: t'.calls
  fates : t.fates <+: t'.fates

variable {t t' : Timeline} {k : Nat}

theorem Extends.refl (t : Timeline) : t.Extends t :=
  ⟨rfl, rfl, rfl, List.prefix_rfl, List.prefix_rfl⟩

/-- Later calls only add to the signal. -/
theorem Extends.signal (h : t.Extends t') (channel : Nat) :
    t.signal channel <+: t'.signal channel := by
  obtain ⟨calls, hcalls⟩ := h.calls
  rw [Timeline.signal, Timeline.signal, ← hcalls, h.indices, List.flatMap_append]
  exact List.prefix_append _ _

/-- The frames only grow. -/
theorem Extends.frames (h : t.Extends t') : t.frames ≤ t'.frames := by
  rw [← t.signal_length 0, ← t'.signal_length 0]
  exact (h.signal 0).length_le

/-- The first position is that of the first call. -/
theorem Extends.first (h : t.Extends t') (hframes : 0 < t.frames) : t'.first = t.first := by
  obtain ⟨calls, hcalls⟩ := h.calls
  rw [Timeline.first, Timeline.first, ← hcalls]
  cases hc : t.calls with
  | nil =>
    rw [Timeline.frames, hc] at hframes
    exact absurd hframes (Nat.lt_irrefl 0)
  | cons c cs => rfl

/-- A complete block stays complete. -/
theorem Extends.complete (h : t.Extends t') (hk : t.Complete k) : t'.Complete k := by
  have := h.frames
  rw [Complete, h.size]
  exact Nat.le_trans hk this

/-- It stays at its position. -/
theorem Extends.position (h : t.Extends t') (hsize : 0 < t.streamBlockSize)
    (hk : t.Complete k) : t'.position k = t.position k := by
  have hpos : 0 < t.frames := by
    refine Nat.lt_of_lt_of_le ?_ hk
    exact Nat.mul_pos (Nat.succ_pos k) hsize
  rw [Timeline.position, Timeline.position, h.first hpos, h.size]

/-- It keeps its samples. -/
theorem Extends.block (h : t.Extends t') (hk : t.Complete k) (channel : Nat) :
    t'.block k channel = t.block k channel := by
  obtain ⟨rest, hrest⟩ := h.signal channel
  have hlen := t.signal_length channel
  have hk : (k + 1) * t.streamBlockSize ≤ t.frames := hk
  rw [Nat.add_mul, Nat.one_mul] at hk
  rw [Timeline.block, Timeline.block, chunk, chunk, h.size, ← hrest,
    List.drop_append_of_le_length (by omega), List.take_append_of_le_length]
  rw [List.length_drop]
  omega

/-- It keeps its fate. -/
theorem Extends.fate (h : t.Extends t') {fate : Fate} (hk : t.fates[k]? = some fate) :
    t'.fates[k]? = some fate := by
  obtain ⟨rest, hrest⟩ := h.fates
  have hlt : k < t.fates.length := (List.getElem?_eq_some_iff.mp hk).1
  rw [← hrest, List.getElem?_append_left hlt, hk]

end Timeline

/-! ## What stands in the slots -/

/-- The slot has block `k`. -/
structure IsBlock (t : Timeline) (k : Nat) (b : SenderProcessBlock) : Prop where
  complete : t.Complete k
  position : b.sourceSamplePosition = t.position k
  generation : b.generation = t.generation
  fate : t.fates[k]? = some .queued
  silent : b.isSilence = true → ∀ channel < t.channelCount, t.block k channel = t.silence
  samples : b.isSilence = false → ∀ channel < t.channelCount, b.channels channel = t.block k channel

/-- The slot has the gap for block `k`. -/
structure IsGap (t : Timeline) (k : Nat) (g : SenderProcessGap) : Prop where
  complete : t.Complete k
  position : g.sourceSamplePosition = t.position k
  generation : g.generation = t.generation
  fate : t.fates[k]? = some .dropped

/-- Block `k` has been processed. -/
structure Plays (t : Timeline) (k : Nat) (p : ProcessedBlock) : Prop where
  complete : t.Complete k
  position : p.sourceSamplePosition = t.position k
  frameCount : p.frameCount = t.streamBlockSize
  channels : t.fates[k]? = some .queued ∧
        p.channels = (List.range t.channelCount).map (t.block k) ∨
      t.fates[k]? = some .dropped ∧ p.channels = List.replicate t.channelCount t.silence

section Extends

variable {t t' : Timeline} {k : Nat}

/-- So a queued block stays right. -/
theorem IsBlock.extend {b : SenderProcessBlock} (hb : IsBlock t k b) (h : t.Extends t')
    (hsize : 0 < t.streamBlockSize) : IsBlock t' k b := by
  have hcount : t'.channelCount = t.channelCount := congrArg List.length h.indices
  have hsilence : t'.silence = t.silence := by rw [Timeline.silence, h.size, Timeline.silence]
  refine ⟨h.complete hb.complete, hb.position.trans (h.position hsize hb.complete).symm,
    hb.generation.trans h.generation.symm, h.fate hb.fate, fun hs channel hc => ?_,
    fun hs channel hc => ?_⟩
  · rw [h.block hb.complete, hsilence]
    exact hb.silent hs channel (hcount ▸ hc)
  · rw [h.block hb.complete]
    exact hb.samples hs channel (hcount ▸ hc)

/-- So does a queued gap. -/
theorem IsGap.extend {g : SenderProcessGap} (hg : IsGap t k g) (h : t.Extends t')
    (hsize : 0 < t.streamBlockSize) : IsGap t' k g :=
  ⟨h.complete hg.complete, hg.position.trans (h.position hsize hg.complete).symm,
    hg.generation.trans h.generation.symm, h.fate hg.fate⟩

/-- So does what has been played. -/
theorem Plays.extend {p : ProcessedBlock} (hp : Plays t k p) (h : t.Extends t')
    (hsize : 0 < t.streamBlockSize) : Plays t' k p := by
  have hcount : t'.channelCount = t.channelCount := congrArg List.length h.indices
  have hsilence : t'.silence = t.silence := by rw [Timeline.silence, h.size, Timeline.silence]
  refine ⟨h.complete hp.complete, hp.position.trans (h.position hsize hp.complete).symm,
    hp.frameCount.trans h.size.symm, ?_⟩
  rw [hcount, hsilence, funext (h.block hp.complete)]
  exact hp.channels.imp (fun hq => ⟨h.fate hq.1, hq.2⟩) (fun hd => ⟨h.fate hd.1, hd.2⟩)

end Extends

/-! ## The block that is being filled -/

/-- How many frames of the current stream are in the pending block. -/
def AOOAppleSender.held (s : AOOAppleSender) (generation : Nat) : Nat :=
  if s.pendingGeneration = generation then s.pendingFrameCount else 0

/-- Of the first `done` frames all but the pending ones are in the first `next` blocks. -/
structure Pending (s : AOOAppleSender) (t : Timeline) (next done : Nat) : Prop where
  done_eq : done = next * t.streamBlockSize + s.held t.generation
  fits : s.held t.generation ≤ t.streamBlockSize
  within : done ≤ t.frames
  storage : ∀ channel < t.channelCount, (s.pendingChannels channel).length = t.streamBlockSize
  position : 0 < s.held t.generation → s.pendingSourceSamplePosition = t.position next
  samples : ∀ channel < t.channelCount,
    (s.pendingChannels channel).take (s.held t.generation) =
      ((t.signal channel).drop (next * t.streamBlockSize)).take (s.held t.generation)
  silent : s.pendingIsSilence = true → ∀ channel < t.channelCount,
    ((t.signal channel).drop (next * t.streamBlockSize)).take (s.held t.generation) =
      List.replicate (s.held t.generation) 0

/-- The block has its generation and its position. -/
structure Begun (s : AOOAppleSender) (t : Timeline) (next done : Nat) : Prop
    extends Pending s t next done where
  current : s.pendingGeneration = t.generation
  begins : s.pendingSourceSamplePosition = t.position next

/-- The call is the last one, and the loop has consumed its frames up to `done`. -/
structure Underway (t : Timeline) (c : EnqueueCall) (consumed done : Nat) : Prop where
  last : ∃ before, t.calls = before ++ [c] ∧ (before.map (·.frameCount)).sum + consumed = done
  consumed_le : consumed ≤ c.frameCount
  placed : c.sourceSamplePosition + consumed = t.first + done
  fits : c.sourceSamplePosition + c.frameCount ≤ 2 ^ 64

section Pending

variable {s : AOOAppleSender} {t : Timeline} {c : EnqueueCall} {next done consumed n : Nat}

theorem held_of_current (h : s.pendingGeneration = t.generation) :
    s.held t.generation = s.pendingFrameCount := if_pos h

/-- What is done and what is left of a call. -/
theorem Underway.frames_eq (h : Underway t c consumed done) :
    t.frames + consumed = done + c.frameCount := by
  obtain ⟨before, hcalls, hdone⟩ := h.last
  rw [Timeline.frames, hcalls, List.map_append, List.sum_append, List.map_singleton,
    List.sum_singleton]
  omega

/-- The frames that the loop copies are the next ones of the timeline. -/
theorem Underway.slice (h : Underway t c consumed done) (hn : consumed + n ≤ c.frameCount)
    (channel : Nat) :
    AOOAppleSender.copied c (t.sourceChannelIndices.getD channel 0) consumed n =
      ((t.signal channel).drop done).take n := by
  obtain ⟨before, hcalls, hdone⟩ := h.last
  have hlen : (before.flatMap fun c =>
      c.samples (t.sourceChannelIndices.getD channel 0)).length =
        (before.map (·.frameCount)).sum := by
    rw [List.length_flatMap]
    simp only [EnqueueCall.samples_length]
  rw [copied_eq c _ hn, Timeline.signal, hcalls, List.flatMap_append, List.flatMap_singleton,
    ← hdone, ← hlen, List.drop_length_add_append]

/-- More of the call is copied. -/
theorem Underway.advance (h : Underway t c consumed done) (hn : consumed + n ≤ c.frameCount) :
    Underway t c (consumed + n) (done + n) := by
  obtain ⟨before, hcalls, hdone⟩ := h.last
  have hplaced := h.placed
  exact ⟨⟨before, hcalls, by omega⟩, hn, by omega, h.fits⟩

/-- The start of a turn of the loop. -/
theorem Pending.beginBlock (h : Pending s t next done) (hc : Underway t c consumed done)
    (hmore : consumed < c.frameCount) :
    Begun (s.beginBlock c t.generation consumed) t next done ∧
      (s.beginBlock c t.generation consumed).held t.generation = s.held t.generation := by
  have hplaced := hc.placed
  have hwrap : wrapAdd c.sourceSamplePosition consumed = t.first + done := by
    have := hc.fits
    rw [wrapAdd, Nat.mod_eq_of_lt (by omega), hplaced]
  by_cases hheld : s.held t.generation = 0
  · -- a new block begins at the frame
    have hdone : done = next * t.streamBlockSize := by
      have := h.done_eq
      omega
    have hbegin : ∃ ntp presentation, s.beginBlock c t.generation consumed = { s with
        pendingFrameCount := 0
        pendingGeneration := t.generation
        pendingIsSilence := true
        pendingSourceSamplePosition := t.position next
        pendingSourceNtpTime := ntp
        pendingSourcePresentationNtpTime := presentation } := by
      have hposition : wrapAdd c.sourceSamplePosition consumed = t.position next := by
        rw [hwrap, Timeline.position, hdone]
      unfold AOOAppleSender.held at hheld
      unfold AOOAppleSender.beginBlock
      split at hheld
      next hcurrent => simp [hcurrent, hheld, hposition]
      next hstale =>
        by_cases hzero : s.pendingFrameCount = 0
        · simp [hzero, hposition]
        · simp [Nat.pos_of_ne_zero hzero, hstale, hposition]
    obtain ⟨ntp, presentation, hbegin⟩ := hbegin
    have hnone : (s.beginBlock c t.generation consumed).held t.generation = 0 := by
      rw [hbegin]
      exact if_pos rfl
    refine ⟨⟨⟨?_, ?_, h.within, ?_, fun hpos => ?_, fun channel _ => ?_, fun _ channel _ => ?_⟩,
      ?_, ?_⟩, hnone.trans hheld.symm⟩
    · rw [hnone, hdone, Nat.add_zero]
    · rw [hnone]
      exact Nat.zero_le _
    · rw [hbegin]
      exact h.storage
    · rw [hnone] at hpos
      exact absurd hpos (Nat.lt_irrefl 0)
    · rw [hnone, List.take_zero, List.take_zero]
    · rw [hnone]
      rfl
    · rw [hbegin]
    · rw [hbegin]
  · -- the block goes on
    have hcurrent : s.pendingGeneration = t.generation := by
      by_contra hne
      exact hheld (if_neg hne)
    have hcount := held_of_current hcurrent
    have hsame : s.beginBlock c t.generation consumed = s := by
      unfold AOOAppleSender.beginBlock
      simp [hcurrent, show s.pendingFrameCount ≠ 0 by omega]
    rw [hsame]
    exact ⟨⟨h, hcurrent, h.position (Nat.pos_of_ne_zero hheld)⟩, rfl⟩

/-- **A turn of the loop** takes the next frames of the timeline. -/
theorem Begun.copyFrames (h : Begun s t next done) (hc : Underway t c consumed done)
    (hindices : s.sourceChannelIndices = t.sourceChannelIndices)
    (hn : consumed + n ≤ c.frameCount) (hroom : s.pendingFrameCount + n ≤ t.streamBlockSize) :
    Begun (s.copyFrames c consumed n) t next (done + n) := by
  have hcount := held_of_current h.current
  have hheld : (s.copyFrames c consumed n).held t.generation = s.pendingFrameCount + n :=
    if_pos h.current
  have hframes := hc.frames_eq
  have hdone := h.done_eq
  have hchannels : s.channelCount = t.channelCount := congrArg List.length hindices
  have hcopied : ∀ channel < t.channelCount, (s.copyFrames c consumed n).pendingChannels channel =
      writeAt (s.pendingChannels channel) s.pendingFrameCount
        (((t.signal channel).drop done).take n) := by
    intro channel hlt
    rw [← hc.slice hn, ← hindices]
    exact if_pos (hchannels ▸ hlt)
  have hlength : ∀ channel, (((t.signal channel).drop done).take n).length = n := by
    intro channel
    rw [List.length_take, List.length_drop, t.signal_length]
    omega
  -- the frames of the block so far, and the new ones behind them
  have hslice : ∀ channel, ((t.signal channel).drop (next * t.streamBlockSize)).take
      (s.pendingFrameCount + n) =
        ((t.signal channel).drop (next * t.streamBlockSize)).take s.pendingFrameCount ++
          ((t.signal channel).drop done).take n := by
    intro channel
    rw [List.take_add, List.drop_drop, hdone, hcount]
  refine ⟨⟨?_, ?_, ?_, ?_, fun _ => h.begins, ?_, ?_⟩, h.current, h.begins⟩
  · rw [hheld]
    omega
  · rw [hheld]
    exact hroom
  · omega
  · intro channel hlt
    have hstorage := h.storage channel hlt
    rw [hcopied channel hlt, writeAt_length (by rw [hlength, hstorage]; exact hroom), hstorage]
  · intro channel hlt
    have hsamples := h.samples channel hlt
    have hstorage := h.storage channel hlt
    rw [hcount] at hsamples
    rw [hheld, hslice, ← hsamples, hcopied channel hlt, writeAt]
    refine List.take_left' ?_
    rw [List.length_append, hlength, List.length_take]
    omega
  · intro hs channel hlt
    have hs : (s.pendingIsSilence && c.isSilence) = true := hs
    rw [Bool.and_eq_true] at hs
    have hsilent := h.silent hs.1 channel hlt
    rw [hcount] at hsilent
    rw [hheld, hslice, hsilent, ← hc.slice hn, AOOAppleSender.copied, if_pos hs.2,
      List.replicate_append_replicate]

/-- Only the pending block changes. -/
theorem beginBlock_eq (s : AOOAppleSender) (c : EnqueueCall) (generation consumed : Nat) :
    ∃ count current silence position ntp presentation,
      s.beginBlock c generation consumed = { s with
        pendingFrameCount := count
        pendingGeneration := current
        pendingIsSilence := silence
        pendingSourceSamplePosition := position
        pendingSourceNtpTime := ntp
        pendingSourcePresentationNtpTime := presentation } := by
  unfold AOOAppleSender.beginBlock
  simp only
  split <;> split <;> exact ⟨_, _, _, _, _, _, rfl⟩

/-- **A complete block** is the next block of the timeline. -/
theorem Pending.complete (h : Pending s t next done)
    (hfull : s.held t.generation = t.streamBlockSize) (hsize : 0 < t.streamBlockSize) :
    t.Complete next ∧ s.pendingSourceSamplePosition = t.position next ∧
      s.pendingGeneration = t.generation := by
  have hdone := h.done_eq
  have hwithin := h.within
  refine ⟨?_, h.position (by omega), ?_⟩
  · rw [Timeline.Complete, Nat.add_mul, Nat.one_mul]
    omega
  · by_contra hne
    have : s.held t.generation = 0 := if_neg hne
    omega

/-- A full pending block is the next block of the timeline. -/
theorem Pending.isBlock (h : Pending s t next done)
    (hfull : s.held t.generation = t.streamBlockSize) (hsize : 0 < t.streamBlockSize)
    (hfate : t.fates[next]? = some .queued) (old : SenderProcessBlock) :
    IsBlock t next (s.pendingBlock old) := by
  obtain ⟨hcomplete, hposition, hcurrent⟩ := h.complete hfull hsize
  refine ⟨hcomplete, hposition, hcurrent, hfate, fun hs channel hlt => ?_,
    fun hs channel hlt => ?_⟩
  · have hsilent := h.silent hs channel hlt
    rw [hfull] at hsilent
    exact hsilent
  · have hs : s.pendingIsSilence = false := hs
    have hsamples := h.samples channel hlt
    rw [hfull, List.take_of_length_le (h.storage channel hlt).le] at hsamples
    rw [AOOAppleSender.pendingBlock, hs]
    exact hsamples

/-- Where the queue had no room it is the next gap. -/
theorem Pending.isGap (h : Pending s t next done)
    (hfull : s.held t.generation = t.streamBlockSize) (hsize : 0 < t.streamBlockSize)
    (hfate : t.fates[next]? = some .dropped) : IsGap t next s.pendingGap := by
  obtain ⟨hcomplete, hposition, hcurrent⟩ := h.complete hfull hsize
  exact ⟨hcomplete, hposition, hcurrent, hfate⟩

/-- The next block begins empty. -/
theorem Pending.reset (h : Pending s t next done)
    (hfull : s.held t.generation = t.streamBlockSize) :
    Pending { s with pendingFrameCount := 0 } t (next + 1) done := by
  have hheld : ({ s with pendingFrameCount := 0 } : AOOAppleSender).held t.generation = 0 :=
    ite_self _
  have hdone := h.done_eq
  refine ⟨?_, ?_, h.within, h.storage, fun hpos => ?_, fun channel _ => ?_, fun _ channel _ => ?_⟩
  · rw [hheld, Nat.add_mul, Nat.one_mul, hdone, hfull, Nat.add_zero]
  · rw [hheld]
    exact Nat.zero_le _
  · rw [hheld] at hpos
    exact absurd hpos (Nat.lt_irrefl 0)
  · rw [hheld, List.take_zero, List.take_zero]
  · rw [hheld]
    rfl

/-- Only the pending block matters. -/
theorem Pending.congr {s' : AOOAppleSender} (h : Pending s t next done)
    (hchannels : s'.pendingChannels = s.pendingChannels)
    (hcount : s'.pendingFrameCount = s.pendingFrameCount)
    (hgeneration : s'.pendingGeneration = s.pendingGeneration)
    (hsilence : s'.pendingIsSilence = s.pendingIsSilence)
    (hposition : s'.pendingSourceSamplePosition = s.pendingSourceSamplePosition) :
    Pending s' t next done := by
  have hheld : s'.held t.generation = s.held t.generation := by
    rw [AOOAppleSender.held, AOOAppleSender.held, hcount, hgeneration]
  refine ⟨?_, ?_, h.within, ?_, ?_, ?_, ?_⟩
  · exact hheld ▸ h.done_eq
  · exact hheld ▸ h.fits
  · exact hchannels ▸ h.storage
  · exact hheld ▸ hposition ▸ h.position
  · exact hheld ▸ hchannels ▸ h.samples
  · exact hheld ▸ hsilence ▸ h.silent

/-- A pending block stays right when calls are added. -/
theorem Pending.extend {t' : Timeline} (h : Pending s t next done) (ht : t.Extends t') :
    Pending s t' next done := by
  have hgeneration : s.held t'.generation = s.held t.generation := by rw [ht.generation]
  have hcount : t'.channelCount = t.channelCount := congrArg List.length ht.indices
  have hdone := h.done_eq
  have hwithin := h.within
  have hslice : ∀ channel, ((t'.signal channel).drop (next * t.streamBlockSize)).take
      (s.held t.generation) = ((t.signal channel).drop (next * t.streamBlockSize)).take
        (s.held t.generation) := by
    intro channel
    obtain ⟨rest, hrest⟩ := ht.signal channel
    have hlen := t.signal_length channel
    rw [← hrest, List.drop_append_of_le_length (by omega), List.take_append_of_le_length]
    rw [List.length_drop]
    omega
  refine ⟨?_, ?_, hwithin.trans ht.frames, ?_, fun hpos => ?_, ?_, ?_⟩
  · rw [hgeneration, ht.size, hdone]
  · rw [hgeneration, ht.size]
    exact h.fits
  · rw [hcount, ht.size]
    exact h.storage
  · rw [hgeneration] at hpos
    rw [h.position hpos, Timeline.position, Timeline.position, ht.size, ht.first (by omega)]
  · intro channel hlt
    rw [hgeneration, ht.size, hslice]
    exact h.samples channel (hcount ▸ hlt)
  · intro hs channel hlt
    rw [hgeneration, ht.size, hslice]
    exact h.silent hs channel (hcount ▸ hlt)

end Pending

end Aoo.Apple
