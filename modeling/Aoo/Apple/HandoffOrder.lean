import Aoo.Apple.Timeline
import Aoo.Lib.Run
import Aoo.Lib.Spsc

/-!
# The order of the handoff

The worker loads the write index of the process queue before that of the gap queue, and the
callback may go on between the two. If the process queue is empty at the first load, the
callback can fill it before the second one and let a block spill into the gap queue: this gap
must not be taken in front of the blocks before it. It is not, because the worker has asked
`nextSenderProcessTiming` before. As it is the only one that takes anything out, what was there
is still there: if the process queue is empty now, the gap queue was not empty then, and its
front is older than all that the callback puts into the process queue meanwhile.

The numbers of the blocks go through two queues as in `Lib.Merge`, and what a thread knows from
the indices it has loaded stays true while the other one goes on.

**Main result** (`handoff_timely`): the handoff keeps the timeline in every run of contiguous
calls whose positions do not wrap.
-/

namespace Aoo.Apple

open Lib

/-! ## The property -/

def AOOAppleSender.timeline (s : AOOAppleSender) (calls : List EnqueueCall) (fates : List Fate) :
    Timeline where
  sourceChannelIndices := s.sourceChannelIndices
  streamBlockSize := s.streamBlockSize
  generation := s.streamGeneration
  calls := calls
  fates := fates

namespace Handoff

def timeline (h : Handoff) : Timeline := h.sender.timeline h.calls h.fates

/-- What is processed follows the timeline of the calls, and a slot is not written before the
worker has released it. -/
structure Timely (h : Handoff) : Prop where
  increasing : (h.processed.map (·.sourceSamplePosition)).Pairwise (· < ·)
  consecutive : h.gapQueueWasFull = false → ∀ i p, h.processed[i]? = some p →
    p.sourceSamplePosition = h.timeline.position i
  samples : ∀ p ∈ h.processed, ∃ k, Plays h.timeline k p
  blockSlot : ∀ e w, h.producer = .enqueueing e → e.stage = .fill w →
    ∀ i, h.sender.processReadIndex ≤ i → i < h.sender.processWriteIndex →
      i % h.sender.processQueue.length ≠ w % h.sender.processQueue.length
  gapSlot : ∀ e w, h.producer = .enqueueing e → e.stage = .fillGap w →
    ∀ i, h.sender.processGapReadIndex ≤ i → i < h.sender.processGapWriteIndex →
      i % h.sender.processGapQueue.length ≠ w % h.sender.processGapQueue.length

/-! ## The steps of a run -/

/-- Each call begins where the one before ends. -/
def contiguous (h : Handoff) : HandoffEvent → Bool
  | .call c =>
    match h.sender.enter c with
    | .error _ => true
    | .ok call => h.calls.getLast?.all fun last =>
        call.sourceSamplePosition == last.sourceSamplePosition + last.frameCount
  | _ => true

/-- Positions do not wrap. -/
def fits (h : Handoff) : HandoffEvent → Bool
  | .call c =>
    match h.sender.enter c with
    | .error _ => true
    | .ok call => decide (call.sourceSamplePosition + call.frameCount ≤ 2 ^ 64)
  | _ => true

def Regular (h : Handoff) (e : HandoffEvent) : Prop :=
  h.contiguous e = true ∧ h.fits e = true

instance (h : Handoff) (e : HandoffEvent) : Decidable (h.Regular e) :=
  inferInstanceAs (Decidable (_ ∧ _))

end Handoff

/-- A sender between two streams. The indices go on from one stream to the next; before they come
into the upper half of their range, 2^67 frames have been given. -/
structure AOOAppleSender.Resting (s : AOOAppleSender) : Prop where
  size : 16 ≤ s.streamBlockSize
  blocks : 0 < s.processQueue.length
  gaps : 0 < s.processGapQueue.length
  writeEarly : s.processWriteIndex ≤ 2 ^ 63
  gapWriteEarly : s.processGapWriteIndex ≤ 2 ^ 63
  stale : s.pendingGeneration ≤ s.streamGeneration
  storage : ∀ channel < s.channelCount, (s.pendingChannels channel).length = s.streamBlockSize

/-- A new sender is at rest, if `create` gets a maximum of 16 at least. -/
theorem resting_create (sourceChannelIndices : List Nat) (sampleRate : ℚ)
    {maximumBlockSize : Int} (hmaximum : 16 ≤ maximumBlockSize) (streamBlockSize : Int) :
    (AOOAppleSender.create sourceChannelIndices sampleRate maximumBlockSize
      streamBlockSize).Resting where
  size := by
    show 16 ≤ (min (max streamBlockSize 16) (clampedBlockSize maximumBlockSize : Int)).toNat
    rw [clampedBlockSize, kDefaultMaximumBlockSize]
    omega
  blocks := by
    show 0 < (List.replicate _ _).length
    rw [List.length_replicate, kMinimumSenderProcessQueueCapacity]
    omega
  gaps := by
    show 0 < (List.replicate _ _).length
    rw [List.length_replicate]
    decide
  writeEarly := Nat.zero_le _
  gapWriteEarly := Nat.zero_le _
  stale := Nat.le_refl 0
  storage _ _ := List.length_replicate

/-! ## The invariant -/

/-- The pending block is complete. -/
def Full (s : AOOAppleSender) (t : Timeline) : Prop := s.held t.generation = t.streamBlockSize

/-- It is decided where the next block goes. -/
def Decided (t : Timeline) (m : Merge) (fate : Fate) : Prop :=
  t.fates.length = m.next + 1 ∧ t.fates[m.next]? = some fate

/-- What holds where the producer stands. -/
def StageOk (s : AOOAppleSender) (t : Timeline) (m : Merge) : ProducerStage → Prop
  | .copy => s.held t.generation < t.streamBlockSize ∧ t.fates.length = m.next
  | .loadWrite => Full s t ∧ t.fates.length = m.next
  | .loadRead w => Full s t ∧ t.fates.length = m.next ∧ w = s.processWriteIndex
  | .fill w =>
    Full s t ∧ Decided t m .queued ∧ w = s.processWriteIndex ∧
      m.main.length < s.processQueue.length
  | .publish w =>
    Full s t ∧ Decided t m .queued ∧ w = s.processWriteIndex ∧
      m.main.length < s.processQueue.length ∧
      ∃ b, s.processQueue[w % s.processQueue.length]? = some b ∧ IsBlock t m.next b
  | .loadGapWrite => Full s t ∧ Decided t m .dropped
  | .loadGapRead w => Full s t ∧ Decided t m .dropped ∧ w = s.processGapWriteIndex
  | .fillGap w =>
    Full s t ∧ Decided t m .dropped ∧ w = s.processGapWriteIndex ∧
      m.spill.length < s.processGapQueue.length
  | .publishGap w =>
    Full s t ∧ Decided t m .dropped ∧ w = s.processGapWriteIndex ∧
      m.spill.length < s.processGapQueue.length ∧
      ∃ g, s.processGapQueue[w % s.processGapQueue.length]? = some g ∧ IsGap t m.next g

/-- The local variables of the producer after the first `done` frames. -/
structure Midway (s : AOOAppleSender) (t : Timeline) (m : Merge) (e : Enqueueing) (done : Nat) :
    Prop where
  generation : e.generation = t.generation
  underway : Underway t e.call e.consumedFrameCount done
  pending : Pending s t m.next done

def ProducerOk (s : AOOAppleSender) (t : Timeline) (m : Merge) : Producer → Prop
  | .idle _ => Pending s t m.next t.frames ∧ StageOk s t m .copy
  | .enqueueing e => ∃ done, Midway s t m e done ∧ StageOk s t m e.stage

/-- One of the queues has something, as the worker knows when it has asked. -/
def Waiting (m : Merge) : Prop := m.main ≠ [] ∨ m.spill ≠ []

/-- What the worker knows from the write index `w` of the process queue. If that queue is
empty, what is waiting is in the gap queue. -/
structure Saw (s : AOOAppleSender) (m : Merge) (w : Nat) : Prop where
  none : w = s.processReadIndex → m.spill ≠ [] ∧ m.Blind
  some : w ≠ s.processReadIndex → m.main ≠ []

/-- What holds where the worker stands. -/
inductive WorkerOk (s : AOOAppleSender) (t : Timeline) (m : Merge) : Worker → Prop where
  | idle (result : Bool) : WorkerOk s t m (.idle result)
  | timingLoadWrite : WorkerOk s t m (.timingLoadWrite s.processReadIndex)
  | timingLoadGapRead {w : Nat} (some : w ≠ s.processReadIndex → m.main ≠ []) :
    WorkerOk s t m (.timingLoadGapRead s.processReadIndex w)
  | timingLoadGapWrite {w : Nat} (some : w ≠ s.processReadIndex → m.main ≠ []) :
    WorkerOk s t m (.timingLoadGapWrite s.processReadIndex w s.processGapReadIndex)
  | timed (waiting : Waiting m) : WorkerOk s t m .timed
  | loadWrite (waiting : Waiting m) : WorkerOk s t m (.loadWrite s.processReadIndex)
  | loadGapRead {w : Nat} (saw : Saw s m w) :
    WorkerOk s t m (.loadGapRead s.processReadIndex w)
  | loadGapWrite {w : Nat} (saw : Saw s m w) :
    WorkerOk s t m (.loadGapWrite s.processReadIndex w s.processGapReadIndex)
  | processGap {k : Nat} {g : SenderProcessGap} (least : m.Least k true) (gap : IsGap t k g) :
    WorkerOk s t m (.process (AOOAppleSender.chooseGap g s.processGapReadIndex))
  | processBlock {k : Nat} {b : SenderProcessBlock} (least : m.Least k false)
    (slot : s.processQueue[s.processReadIndex % s.processQueue.length]? = some b)
    (block : IsBlock t k b) :
    WorkerOk s t m (.process (AOOAppleSender.chooseBlock b s.processReadIndex))
  | releaseGap {k : Nat} (least : m.Least k true) :
    WorkerOk s t m (.release true s.processGapReadIndex)
  | releaseBlock {k : Nat} (least : m.Least k false) :
    WorkerOk s t m (.release false s.processReadIndex)

/-- The blocks that the worker has chosen and processed, if it is enabled. -/
def Worker.out (m : Merge) : Worker → List Nat
  | .release processGap _ => (m.take processGap).out
  | _ => m.out

/-- The queues hold blocks and gaps of the timeline, and the two threads stand where their
local variables say. -/
structure Inv (h : Handoff) (m : Merge) : Prop where
  wide : 16 ≤ h.sender.streamBlockSize
  ready : h.sender.hasDestination = true
  blocks : Between (IsBlock h.timeline) h.sender.processQueue h.sender.processReadIndex
    h.sender.processWriteIndex m.main
  gaps : Between (IsGap h.timeline) h.sender.processGapQueue h.sender.processGapReadIndex
    h.sender.processGapWriteIndex m.spill
  writeFits : h.sender.processWriteIndex < 2 ^ 64
  gapWriteFits : h.sender.processGapWriteIndex < 2 ^ 64
  writeEarly : h.sender.processWriteIndex ≤ 2 ^ 63 + m.next
  gapWriteEarly : h.sender.processGapWriteIndex ≤ 2 ^ 63 + m.next
  ordered : m.Ordered
  lost : m.lost ≠ [] → h.gapQueueWasFull = true
  full : h.sender.processGapQueue.length ≤ m.spill.length → h.gapQueueWasFull = true
  contiguous : ∀ last ∈ h.calls.getLast?,
    last.sourceSamplePosition + last.frameCount = h.timeline.first + h.timeline.frames
  producer : ProducerOk h.sender h.timeline m h.producer
  worker : WorkerOk h.sender h.timeline m h.worker
  played : ∃ ks, ks <+: h.worker.out m ∧ (h.sender.enabled = true → ks = h.worker.out m) ∧
    List.Forall₂ (Plays h.timeline) ks h.processed

variable {h : Handoff} {m : Merge}

/-! ## What the invariant says -/

theorem Inv.size (hi : Inv h m) : 0 < h.sender.streamBlockSize :=
  Nat.lt_of_lt_of_le (Nat.succ_pos 15) hi.wide

/-- The worker has taken out the blocks in order. -/
theorem Inv.out_ordered (hi : Inv h m) : ∃ m' : Merge, m'.Ordered ∧ m'.lost = m.lost ∧
    h.worker.out m = m'.out := by
  have hworker := hi.worker
  cases hw : h.worker with
  | release processGap index =>
    rw [hw] at hworker
    refine ⟨m.take processGap, ?_, m.take_lost processGap, rfl⟩
    cases hworker with
    | releaseGap least => exact hi.ordered.take least
    | releaseBlock least => exact hi.ordered.take least
  | _ => exact ⟨m, hi.ordered, rfl, rfl⟩

/-- The positions of the played blocks are those of the timeline. -/
theorem positions_eq {t : Timeline} {ks : List Nat} {ps : List ProcessedBlock}
    (h : List.Forall₂ (Plays t) ks ps) :
    ps.map (·.sourceSamplePosition) = ks.map t.position := by
  induction h with
  | nil => rfl
  | cons hp _ ih => rw [List.map_cons, List.map_cons, hp.position, ih]

/-- Each processed block plays a block of the timeline. -/
theorem plays_of_mem {t : Timeline} {ks : List Nat} {ps : List ProcessedBlock}
    (h : List.Forall₂ (Plays t) ks ps) {p : ProcessedBlock} (hp : p ∈ ps) : ∃ k, Plays t k p := by
  induction h with
  | nil => cases hp
  | cons hplays _ ih =>
    rcases List.mem_cons.mp hp with rfl | hp
    · exact ⟨_, hplays⟩
    · exact ih hp

/-- Later blocks have later positions. -/
theorem Timeline.position_lt {t : Timeline} (hsize : 0 < t.streamBlockSize) {i k : Nat}
    (h : i < k) : t.position i < t.position k :=
  Nat.add_lt_add_left (Nat.mul_lt_mul_of_pos_right h hsize) _

/-- Where the producer is inside its call. -/
theorem Inv.stage (hi : Inv h m) {e : Enqueueing} (he : h.producer = .enqueueing e) :
    StageOk h.sender h.timeline m e.stage := by
  have hproducer := hi.producer
  rw [he] at hproducer
  obtain ⟨done, -, hstage⟩ := hproducer
  exact hstage

/-- The invariant gives what is to be shown. -/
theorem Inv.timely (hi : Inv h m) : h.Timely := by
  obtain ⟨m', hordered, hlost, hout⟩ := hi.out_ordered
  obtain ⟨ks, hprefix, -, hplays⟩ := hi.played
  rw [hout] at hprefix
  have hpositions := positions_eq hplays
  refine ⟨?_, fun hfull i p hp => ?_, fun p hp => plays_of_mem hplays hp, ?_, ?_⟩
  · rw [hpositions, List.pairwise_map]
    exact (hordered.out_pairwise.sublist hprefix.sublist).imp
      fun hlt => Timeline.position_lt hi.size hlt
  · have hnone : m'.lost = [] := by
      by_contra hne
      have := hi.lost (hlost ▸ hne)
      rw [hfull] at this
      cases this
    -- the numbers of the blocks count from 0
    have hat : (ks.map h.timeline.position)[i]? = some p.sourceSamplePosition := by
      rw [← hpositions, List.getElem?_map, hp]
      rfl
    obtain ⟨k, hk, hposition⟩ := Option.map_eq_some_iff.mp (List.getElem?_map ▸ hat)
    obtain ⟨rest, hrest⟩ := hprefix
    have hlt : i < ks.length := (List.getElem?_eq_some_iff.mp hk).1
    have hout : m'.out[i]? = some k := by rw [← hrest, List.getElem?_append_left hlt, hk]
    rw [hordered.out_eq_range hnone] at hout
    obtain ⟨hi', hik⟩ := List.getElem?_eq_some_iff.mp hout
    rw [List.getElem_range] at hik
    rw [hik, hposition]
  · intro e w he hw
    have hstage := hi.stage he
    rw [hw] at hstage
    obtain ⟨-, -, rfl, hroom⟩ := hstage
    exact fun i hlow hhigh => hi.blocks.free hroom hlow hhigh
  · intro e w he hw
    have hstage := hi.stage he
    rw [hw] at hstage
    obtain ⟨-, -, rfl, hroom⟩ := hstage
    exact fun i hlow hhigh => hi.gaps.free hroom hlow hhigh

/-! ## The steps of the worker -/

/-- A step that only moves the worker. -/
theorem Inv.moves (hi : Inv h m) {w : Worker} (hw : WorkerOk h.sender h.timeline m w)
    (hout : w.out m = h.worker.out m) :
    Inv { h with worker := w, processed := h.processed ++ [] } m := by
  rw [List.append_nil]
  refine { hi with worker := hw, played := ?_ }
  show ∃ ks, ks <+: w.out m ∧ (h.sender.enabled = true → ks = w.out m) ∧ _
  rw [hout]
  exact hi.played

/-- **The choice**: what the worker takes is the front of its queue, and smaller than
everything in the other one. -/
theorem Inv.choose (hi : Inv h m) {w : Nat} (saw : Saw h.sender m w) {chosen : Chosen}
    (hchosen : h.sender.choose h.sender.processReadIndex w h.sender.processGapReadIndex
      h.sender.processGapWriteIndex = some chosen) :
    WorkerOk h.sender h.timeline m (.process chosen) := by
  have hblock : h.sender.processReadIndex ≠ w → ∃ k ks b, m.main = k :: ks ∧
      h.sender.processQueue[h.sender.processReadIndex % h.sender.processQueue.length]? = some b ∧
      IsBlock h.timeline k b := by
    intro hne
    obtain ⟨k, ks, hks⟩ := List.exists_cons_of_ne_nil (saw.some hne.symm)
    obtain ⟨b, hslot, hb⟩ := (hks ▸ hi.blocks).front
    exact ⟨k, ks, b, hks, hslot, hb⟩
  have hgap : h.sender.processGapReadIndex ≠ h.sender.processGapWriteIndex →
      ∃ k ks g, m.spill = k :: ks ∧
        h.sender.processGapQueue[h.sender.processGapReadIndex %
          h.sender.processGapQueue.length]? = some g ∧ IsGap h.timeline k g := by
    intro hne
    obtain ⟨k, ks, hks⟩ := List.exists_cons_of_ne_nil
      (fun hnil => hne (hi.gaps.eq_nil_iff.mp hnil).symm)
    obtain ⟨g, hslot, hg⟩ := (hks ▸ hi.gaps).front
    exact ⟨k, ks, g, hks, hslot, hg⟩
  unfold AOOAppleSender.choose at hchosen
  by_cases hw : h.sender.processReadIndex = w <;>
    by_cases hg : h.sender.processGapReadIndex = h.sender.processGapWriteIndex
  · simp only [ne_eq, hw, hg, not_true_eq_false, if_false] at hchosen
    cases hchosen
  · obtain ⟨k, ks, g, hks, hslot, hgap⟩ := hgap hg
    simp only [ne_eq, hw, hg, not_true_eq_false, not_false_eq_true, if_false, if_true, hslot,
      Option.some.injEq] at hchosen
    exact hchosen ▸ WorkerOk.processGap ((saw.none hw.symm).2.least hks) hgap
  · obtain ⟨k, ks, b, hks, hslot, hblock⟩ := hblock hw
    simp only [ne_eq, hw, hg, not_true_eq_false, not_false_eq_true, if_false, if_true, hslot,
      Option.some.injEq] at hchosen
    have hleast := Merge.least_main hks (hi.gaps.eq_nil_iff.mpr hg.symm)
    exact hchosen ▸ WorkerOk.processBlock hleast hslot hblock
  · obtain ⟨i, is, g, his, hgapSlot, hgap⟩ := hgap hg
    obtain ⟨k, ks, b, hks, hslot, hblock⟩ := hblock hw
    obtain ⟨hgapFirst, hblockFirst⟩ := hi.ordered.least_of_fronts his hks
    simp only [ne_eq, hw, hg, not_false_eq_true, if_true, hslot, hgapSlot, hgap.position,
      hblock.position] at hchosen
    -- the positions are ordered as the numbers
    rcases Nat.lt_trichotomy i k with hlt | heq | hlt
    · rw [if_pos (Timeline.position_lt hi.size hlt), Option.some.injEq] at hchosen
      exact hchosen ▸ WorkerOk.processGap (hgapFirst hlt) hgap
    · have hqueued := hblock.fate
      rw [← heq, hgap.fate] at hqueued
      cases hqueued
    · rw [if_neg (Timeline.position_lt hi.size hlt).asymm, Option.some.injEq] at hchosen
      exact hchosen ▸ WorkerOk.processBlock (hblockFirst hlt) hslot hblock

section Plays

variable {s : AOOAppleSender} {calls : List EnqueueCall} {fates : List Fate} {k : Nat}

/-- A gap is processed as silence. -/
theorem plays_gap {g : SenderProcessGap} (hg : IsGap (s.timeline calls fates) k g) (index : Nat) :
    Plays (s.timeline calls fates) k {
      channels := s.channelsOf (AOOAppleSender.chooseGap g index)
      frameCount := s.streamBlockSize
      sourceNtpTime := g.sourceNtpTime
      sourceSamplePosition := g.sourceSamplePosition } :=
  ⟨hg.complete, hg.position, rfl, Or.inr ⟨hg.fate, rfl⟩⟩

/-- A block is processed with its samples. -/
theorem plays_block {b : SenderProcessBlock} (hb : IsBlock (s.timeline calls fates) k b)
    {index : Nat} (hslot : s.processQueue[index % s.processQueue.length]? = some b) :
    Plays (s.timeline calls fates) k {
      channels := s.channelsOf (AOOAppleSender.chooseBlock b index)
      frameCount := s.streamBlockSize
      sourceNtpTime := b.sourceNtpTime
      sourceSamplePosition := b.sourceSamplePosition } := by
  refine ⟨hb.complete, hb.position, rfl, Or.inl ⟨hb.fate, ?_⟩⟩
  show s.channelsOf (AOOAppleSender.chooseBlock b index) =
    (List.range s.channelCount).map ((s.timeline calls fates).block k)
  cases hs : b.isSilence with
  | true =>
    have hblock : (List.range s.channelCount).map ((s.timeline calls fates).block k) =
        (List.range s.channelCount).map fun _ => (s.timeline calls fates).silence :=
      List.map_congr_left fun channel hlt => hb.silent hs channel (List.mem_range.mp hlt)
    rw [hblock, List.map_const', List.length_range]
    exact if_pos hs
  | false =>
    have hchannels : s.channelsOf (AOOAppleSender.chooseBlock b index) =
        (List.range s.channelCount).map b.channels := by
      have hs' : ¬ b.isSilence = true := by
        rw [hs]
        exact Bool.false_ne_true
      have hget : s.processQueue.getD (index % s.processQueue.length) {} = b := by
        rw [List.getD_eq_getElem?_getD, hslot, Option.getD_some]
      exact (if_neg hs').trans (congrArg
        (fun block : SenderProcessBlock => (List.range s.channelCount).map block.channels) hget)
    rw [hchannels]
    exact List.map_congr_left fun channel hlt => hb.samples hs channel (List.mem_range.mp hlt)

end Plays

/-- The worker processes what it has chosen, unless the stream has ended. -/
theorem Inv.process (hi : Inv h m) {chosen : Chosen} {k : Nat}
    (hworker : h.worker = .process chosen) (least : m.Least k chosen.processGap)
    (hok : WorkerOk h.sender h.timeline m (.release chosen.processGap chosen.index))
    (hgeneration : chosen.generation = h.sender.streamGeneration)
    (hplays : Plays h.timeline k {
      channels := h.sender.channelsOf chosen
      frameCount := h.sender.streamBlockSize
      sourceNtpTime := chosen.sourceNtpTime
      sourceSamplePosition := chosen.sourceSamplePosition }) :
    Inv { h with
      worker := .release chosen.processGap chosen.index
      processed := h.processed ++ h.sender.processed chosen } m := by
  obtain ⟨ks, hprefix, henabled, hall⟩ := hi.played
  rw [hworker] at hprefix henabled
  have hprefix : ks <+: m.out := hprefix
  have henabled : h.sender.enabled = true → ks = m.out := henabled
  refine { hi with worker := hok, played := ?_ }
  show ∃ ks, ks <+: (m.take chosen.processGap).out ∧
    (h.sender.enabled = true → ks = (m.take chosen.processGap).out) ∧
      List.Forall₂ (Plays h.timeline) ks (h.processed ++ h.sender.processed chosen)
  rw [least.take_out]
  unfold AOOAppleSender.processed
  cases hon : h.sender.enabled with
  | true =>
    rw [hgeneration, hi.ready]
    refine ⟨ks ++ [k], ?_, fun _ => ?_, ?_⟩
    · exact henabled hon ▸ List.prefix_rfl
    · rw [henabled hon]
    · simp only [decide_true, Bool.and_self, if_true]
      exact List.rel_append hall (List.Forall₂.cons hplays List.Forall₂.nil)
  | false =>
    refine ⟨ks, hprefix.trans (List.prefix_append _ _), nofun, ?_⟩
    simp only [Bool.and_false, Bool.false_and, Bool.false_eq_true, if_false, List.append_nil]
    exact hall

/-- What the release of a block leaves to the producer. -/
theorem StageOk.release_block {s : AOOAppleSender} {t : Timeline} {stage : ProducerStage}
    (hs : StageOk s t m stage) (index : Nat) :
    StageOk { s with processReadIndex := index } t (m.take false) stage := by
  have hroom := (m.take_length_le false).1
  cases stage with
  | fill w => exact ⟨hs.1, hs.2.1, hs.2.2.1, hroom.trans_lt hs.2.2.2⟩
  | publish w => exact ⟨hs.1, hs.2.1, hs.2.2.1, hroom.trans_lt hs.2.2.2.1, hs.2.2.2.2⟩
  | _ => exact hs

/-- A released gap makes room for the producer, wherever it is. -/
theorem StageOk.release_gap {s : AOOAppleSender} {t : Timeline} {stage : ProducerStage}
    (hs : StageOk s t m stage) (index : Nat) :
    StageOk { s with processGapReadIndex := index } t (m.take true) stage := by
  have hroom := (m.take_length_le true).2
  cases stage with
  | fillGap w => exact ⟨hs.1, hs.2.1, hs.2.2.1, hroom.trans_lt hs.2.2.2⟩
  | publishGap w => exact ⟨hs.1, hs.2.1, hs.2.2.1, hroom.trans_lt hs.2.2.2.1, hs.2.2.2.2⟩
  | _ => exact hs

/-- The producer stands where it stood if the other thread has left its block alone. -/
theorem ProducerOk.mono {s s' : AOOAppleSender} {t : Timeline} {m' : Merge} {p : Producer}
    (hp : ProducerOk s t m p)
    (hpending : ∀ next done, Pending s t next done → Pending s' t next done)
    (hnext : m'.next = m.next) (hstage : ∀ stage, StageOk s t m stage → StageOk s' t m' stage) :
    ProducerOk s' t m' p := by
  cases p with
  | idle result => exact ⟨hnext ▸ hpending _ _ hp.1, hstage _ hp.2⟩
  | enqueueing e =>
    obtain ⟨done, hmid, hat⟩ := hp
    exact ⟨done, ⟨hmid.generation, hmid.underway, hnext ▸ hpending _ _ hmid.pending⟩, hstage _ hat⟩

/-- An index below the write index does not wrap. -/
theorem wrapAdd_one {i w : Nat} (hi : i < w) (hw : w < 2 ^ 64) : wrapAdd i 1 = i + 1 :=
  Nat.mod_eq_of_lt (by omega)

/-- The worker releases the block that it has sent. -/
theorem Inv.release_block (hi : Inv h m) {k : Nat} (least : m.Least k false)
    (hworker : h.worker = .release false h.sender.processReadIndex) :
    Inv { h with
      sender := { h.sender with processReadIndex := wrapAdd h.sender.processReadIndex 1 }
      worker := .idle true
      processed := h.processed ++ [] } (m.take false) := by
  obtain ⟨ks, hks⟩ := least.1
  have hfront := hks ▸ hi.blocks
  have hcount := hfront.count
  rw [List.length_cons] at hcount
  have htake : (m.take false).main = ks := by
    rw [Merge.take, hks]
    rfl
  rw [List.append_nil, wrapAdd_one (by omega) hi.writeFits]
  refine { hi with
    blocks := htake ▸ hfront.release
    ordered := hi.ordered.take least
    producer := hi.producer.mono (fun _ _ hp => hp.congr rfl rfl rfl rfl rfl) rfl
      fun _ hs => hs.release_block _
    worker := WorkerOk.idle true
    played := ?_ }
  have hplayed := hi.played
  rw [hworker] at hplayed
  exact hplayed

/-- The worker releases the gap that it has sent. -/
theorem Inv.release_gap (hi : Inv h m) {k : Nat} (least : m.Least k true)
    (hworker : h.worker = .release true h.sender.processGapReadIndex) :
    Inv { h with
      sender := { h.sender with processGapReadIndex := wrapAdd h.sender.processGapReadIndex 1 }
      worker := .idle true
      processed := h.processed ++ [] } (m.take true) := by
  obtain ⟨ks, hks⟩ := least.1
  have hfront := hks ▸ hi.gaps
  have hcount := hfront.count
  rw [List.length_cons] at hcount
  have htake : (m.take true).spill = ks := by
    rw [Merge.take, hks]
    rfl
  rw [List.append_nil, wrapAdd_one (by omega) hi.gapWriteFits]
  refine { hi with
    gaps := htake ▸ hfront.release
    ordered := hi.ordered.take least
    full := fun hfull => hi.full (hfull.trans (m.take_length_le true).2)
    producer := hi.producer.mono (fun _ _ hp => hp.congr rfl rfl rfl rfl rfl) rfl
      fun _ hs => hs.release_gap _
    worker := WorkerOk.idle true
    played := ?_ }
  have hplayed := hi.played
  rw [hworker] at hplayed
  exact hplayed

/-- **A step of the worker** keeps the invariant. -/
theorem Inv.work (hi : Inv h m) : ∃ m', Inv h.work m' := by
  obtain ⟨s, producer, worker, calls, fates, processed, full⟩ := h
  have hworker : WorkerOk s (s.timeline calls fates) m worker := hi.worker
  have hsome : s.processWriteIndex ≠ s.processReadIndex → m.main ≠ [] :=
    fun hne hnil => hne (hi.blocks.eq_nil_iff.mp hnil)
  cases hworker with
  | idle result => exact ⟨m, hi.moves WorkerOk.timingLoadWrite rfl⟩
  | timingLoadWrite => exact ⟨m, hi.moves (WorkerOk.timingLoadGapRead hsome) rfl⟩
  | timingLoadGapRead some => exact ⟨m, hi.moves (WorkerOk.timingLoadGapWrite some) rfl⟩
  | @timingLoadGapWrite w some =>
    refine ⟨m, ?_⟩
    unfold Handoff.work AOOAppleSender.work
    simp only
    split
    next hasked =>
      refine hi.moves (WorkerOk.timed ?_) rfl
      refine hasked.imp (fun hne => some hne.symm) fun hne hnil => ?_
      exact hne (hi.gaps.eq_nil_iff.mp hnil).symm
    next => exact hi.moves (WorkerOk.idle false) rfl
  | timed waiting => exact ⟨m, hi.moves (WorkerOk.loadWrite waiting) rfl⟩
  | loadWrite waiting =>
    refine ⟨m, hi.moves (WorkerOk.loadGapRead ⟨fun heq => ?_, hsome⟩) rfl⟩
    have hnil := hi.blocks.eq_nil_iff.mpr heq
    exact ⟨waiting.resolve_left fun hne => hne hnil, Merge.blind_of_main hnil⟩
  | loadGapRead saw => exact ⟨m, hi.moves (WorkerOk.loadGapWrite saw) rfl⟩
  | @loadGapWrite w saw =>
    refine ⟨m, ?_⟩
    unfold Handoff.work AOOAppleSender.work
    simp only
    split
    next hnone => exact hi.moves (WorkerOk.idle false) rfl
    next chosen hchosen => exact hi.moves (hi.choose saw hchosen) rfl
  | processGap least gap =>
    refine ⟨m, hi.process rfl least (WorkerOk.releaseGap least) gap.generation ?_⟩
    exact plays_gap gap _
  | processBlock least slot block =>
    refine ⟨m, hi.process rfl least (WorkerOk.releaseBlock least) block.generation ?_⟩
    exact plays_block block slot
  | releaseGap least => exact ⟨m.take true, hi.release_gap least rfl⟩
  | releaseBlock least => exact ⟨m.take false, hi.release_block least rfl⟩

/-! ## The steps of the callback -/

/-- What a step of the producer leaves to the worker. -/
structure Kept (s s' : AOOAppleSender) : Prop where
  indices : s'.sourceChannelIndices = s.sourceChannelIndices
  size : s'.streamBlockSize = s.streamBlockSize
  generation : s'.streamGeneration = s.streamGeneration
  enabled : s'.enabled = s.enabled
  ready : s'.hasDestination = s.hasDestination
  readIndex : s'.processReadIndex = s.processReadIndex
  gapReadIndex : s'.processGapReadIndex = s.processGapReadIndex

/-- What the worker holds is not touched by the producer. -/
theorem WorkerOk.kept {s s' : AOOAppleSender} {t t' : Timeline} {m' : Merge} {w : Worker}
    (h : WorkerOk s t m w) (hread : s'.processReadIndex = s.processReadIndex)
    (hgapRead : s'.processGapReadIndex = s.processGapReadIndex) (ht : t.Extends t')
    (hsize : 0 < t.streamBlockSize) (hgrows : m.Grows m')
    (hslot : m.main ≠ [] → s'.processQueue[s.processReadIndex % s'.processQueue.length]? =
      s.processQueue[s.processReadIndex % s.processQueue.length]?) : WorkerOk s' t' m' w := by
  have hwaiting : Waiting m → Waiting m' := Or.imp hgrows.main hgrows.spill
  have hsome : ∀ w', (w' ≠ s.processReadIndex → m.main ≠ []) →
      w' ≠ s'.processReadIndex → m'.main ≠ [] :=
    fun w' some hne => hgrows.main (some (hread ▸ hne))
  have hsaw : ∀ w', Saw s m w' → Saw s' m' w' := by
    intro w' saw
    refine ⟨fun heq => ?_, hsome w' saw.some⟩
    obtain ⟨hspill, hblind⟩ := saw.none (hread ▸ heq)
    exact ⟨hgrows.spill hspill, hgrows.blind hspill hblind⟩
  cases h with
  | idle result => exact WorkerOk.idle result
  | timingLoadWrite => exact hread ▸ WorkerOk.timingLoadWrite
  | @timingLoadGapRead w some =>
    rw [← hread]
    exact WorkerOk.timingLoadGapRead (hsome w some)
  | @timingLoadGapWrite w some =>
    rw [← hread, ← hgapRead]
    exact WorkerOk.timingLoadGapWrite (hsome w some)
  | timed waiting => exact WorkerOk.timed (hwaiting waiting)
  | loadWrite waiting =>
    rw [← hread]
    exact WorkerOk.loadWrite (hwaiting waiting)
  | @loadGapRead w saw =>
    rw [← hread]
    exact WorkerOk.loadGapRead (hsaw w saw)
  | @loadGapWrite w saw =>
    rw [← hread, ← hgapRead]
    exact WorkerOk.loadGapWrite (hsaw w saw)
  | processGap least gap =>
    rw [← hgapRead]
    exact WorkerOk.processGap (hgrows.least _ _ least) (gap.extend ht hsize)
  | processBlock least slot block =>
    obtain ⟨ks, hks⟩ := least.1
    rw [← hslot (hks ▸ List.cons_ne_nil _ _)] at slot
    rw [← hread] at slot ⊢
    exact WorkerOk.processBlock (hgrows.least _ _ least) slot (block.extend ht hsize)
  | releaseGap least =>
    rw [← hgapRead]
    exact WorkerOk.releaseGap (hgrows.least _ _ least)
  | releaseBlock least =>
    rw [← hread]
    exact WorkerOk.releaseBlock (hgrows.least _ _ least)

/-- Nor is the order in which it takes the blocks. -/
theorem WorkerOk.out_eq {s : AOOAppleSender} {t : Timeline} {m' : Merge} {w : Worker}
    (h : WorkerOk s t m w) (hgrows : m.Grows m') : w.out m' = w.out m := by
  cases h with
  | releaseGap least => exact hgrows.take_out least
  | releaseBlock least => exact hgrows.take_out least
  | _ => exact hgrows.out

/-- A step that keeps the input keeps the timeline. -/
theorem Kept.timeline {s s' : AOOAppleSender} (h : Kept s s') (calls : List EnqueueCall)
    (fates : List Fate) : s'.timeline calls fates = s.timeline calls fates := by
  rw [AOOAppleSender.timeline, AOOAppleSender.timeline, h.indices, h.size, h.generation]

/-- Later fates only add to the timeline. -/
theorem timeline_extends (s : AOOAppleSender) (calls : List EnqueueCall)
    (fates fates' : List Fate) :
    (s.timeline calls fates).Extends (s.timeline calls (fates ++ fates')) :=
  ⟨rfl, rfl, rfl, List.prefix_rfl, List.prefix_append _ _⟩

/-- `a - b` for indices that have not wrapped. -/
theorem wrapSub_eq {a b : Nat} (hle : b ≤ a) (ha : a < 2 ^ 64) : wrapSub a b = a - b := by
  rw [wrapSub, show a + 2 ^ 64 - b = a - b + 2 ^ 64 by omega, Nat.add_mod_right,
    Nat.mod_eq_of_lt (by omega)]

/-- What a step of the producer has to keep. -/
structure Produces (h : Handoff) (m : Merge) (s : AOOAppleSender) (fates : List Fate)
    (p : Producer) (m' : Merge) : Prop where
  kept : Kept h.sender s
  grows : m.Grows m'
  slot : m.main ≠ [] →
    s.processQueue[h.sender.processReadIndex % s.processQueue.length]? =
      h.sender.processQueue[h.sender.processReadIndex % h.sender.processQueue.length]?
  blocks : Between (IsBlock h.timeline) s.processQueue s.processReadIndex s.processWriteIndex
    m'.main
  gaps : Between (IsGap h.timeline) s.processGapQueue s.processGapReadIndex
    s.processGapWriteIndex m'.spill
  writeFits : s.processWriteIndex < 2 ^ 64
  gapWriteFits : s.processGapWriteIndex < 2 ^ 64
  writeEarly : s.processWriteIndex ≤ 2 ^ 63 + m'.next
  gapWriteEarly : s.processGapWriteIndex ≤ 2 ^ 63 + m'.next
  ordered : m'.Ordered
  lost : m'.lost ≠ [] → h.gapQueueWasFull = true
  producer : ProducerOk s (h.sender.timeline h.calls (h.fates ++ fates)) m' p

/-- A step of the producer, for the sender and for what is recorded. -/
theorem produce_eq {e : Enqueueing} (he : h.producer = .enqueueing e)
    {s : AOOAppleSender} {p : Producer} {fates : List Fate}
    (hstep : h.sender.produce e = (s, p, fates)) :
    h.produce = { h with
      sender := s
      producer := p
      fates := h.fates ++ fates
      gapQueueWasFull := h.gapQueueWasFull || Handoff.gapQueueFull s } := by
  unfold Handoff.produce
  rw [he]
  simp only [hstep]

/-- A step of the producer keeps the invariant if it puts what it should into its queues. -/
theorem Inv.produced (hi : Inv h m) {e : Enqueueing} (he : h.producer = .enqueueing e)
    {s : AOOAppleSender} {p : Producer} {fates : List Fate} {m' : Merge}
    (hstep : h.sender.produce e = (s, p, fates)) (hp : Produces h m s fates p m') :
    Inv h.produce m' := by
  -- fates are added to the timeline, so that what was a block or a gap stays one
  have ht := timeline_extends h.sender h.calls h.fates fates
  have htimeline := hp.kept.timeline h.calls (h.fates ++ fates)
  have hsize := hi.size
  rw [produce_eq he hstep]
  constructor
  case wide => exact hp.kept.size ▸ hi.wide
  case ready => exact hp.kept.ready.trans hi.ready
  case blocks =>
    show Between (IsBlock (s.timeline h.calls (h.fates ++ fates))) _ _ _ _
    rw [htimeline]
    exact hp.blocks.imp fun k b hb => hb.extend ht hsize
  case gaps =>
    show Between (IsGap (s.timeline h.calls (h.fates ++ fates))) _ _ _ _
    rw [htimeline]
    exact hp.gaps.imp fun k b hb => hb.extend ht hsize
  case writeFits => exact hp.writeFits
  case gapWriteFits => exact hp.gapWriteFits
  case writeEarly => exact hp.writeEarly
  case gapWriteEarly => exact hp.gapWriteEarly
  case ordered => exact hp.ordered
  case lost =>
    intro hlost
    show (_ || _) = true
    rw [hp.lost hlost, Bool.true_or]
  case full =>
    intro hfull
    have hcount := hp.gaps.count
    have hfits := hp.gapWriteFits
    have hfull : s.processGapQueue.length ≤ m'.spill.length := hfull
    show (_ || _) = true
    rw [Handoff.gapQueueFull, wrapSub_eq (by omega) hfits, decide_eq_true (by omega), Bool.or_true]
  case contiguous =>
    show ∀ last ∈ h.calls.getLast?, _ = (s.timeline h.calls (h.fates ++ fates)).first +
      (s.timeline h.calls (h.fates ++ fates)).frames
    rw [htimeline]
    exact hi.contiguous
  case producer =>
    show ProducerOk s (s.timeline h.calls (h.fates ++ fates)) m' p
    rw [htimeline]
    exact hp.producer
  case worker =>
    show WorkerOk s (s.timeline h.calls (h.fates ++ fates)) m' h.worker
    rw [htimeline]
    exact hi.worker.kept hp.kept.readIndex hp.kept.gapReadIndex ht hsize hp.grows hp.slot
  case played =>
    obtain ⟨ks, hprefix, henabled, hall⟩ := hi.played
    have hout := hi.worker.out_eq hp.grows
    refine ⟨ks, ?_, ?_, ?_⟩
    · show ks <+: h.worker.out m'
      rw [hout]
      exact hprefix
    · show s.enabled = true → ks = h.worker.out m'
      rw [hout, hp.kept.enabled]
      exact henabled
    · show List.Forall₂ (Plays (s.timeline h.calls (h.fates ++ fates))) ks h.processed
      rw [htimeline]
      exact hall.imp fun k p hplays => hplays.extend ht hsize

/-- A step of the producer that does not touch the queues. -/
theorem Inv.turns (hi : Inv h m) {e : Enqueueing} (he : h.producer = .enqueueing e)
    {s : AOOAppleSender} {p : Producer} {fates : List Fate}
    (hstep : h.sender.produce e = (s, p, fates)) (hkept : Kept h.sender s)
    (hblocks : s.processQueue = h.sender.processQueue)
    (hgaps : s.processGapQueue = h.sender.processGapQueue)
    (hwrite : s.processWriteIndex = h.sender.processWriteIndex)
    (hgapWrite : s.processGapWriteIndex = h.sender.processGapWriteIndex)
    (hproducer : ProducerOk s (h.sender.timeline h.calls (h.fates ++ fates)) m p) :
    Inv h.produce m := by
  refine hi.produced he hstep ⟨hkept, Merge.Grows.refl m, fun _ => ?_, ?_, ?_, ?_, ?_, ?_, ?_,
    hi.ordered, hi.lost, hproducer⟩
  · rw [hblocks]
  · rw [hblocks, hkept.readIndex, hwrite]
    exact hi.blocks
  · rw [hgaps, hkept.gapReadIndex, hgapWrite]
    exact hi.gaps
  · exact hwrite ▸ hi.writeFits
  · exact hgapWrite ▸ hi.gapWriteFits
  · exact hwrite ▸ hi.writeEarly
  · exact hgapWrite ▸ hi.gapWriteEarly

variable {e : Enqueueing} {done : Nat}

/-- What a turn of the loop over the frames does. -/
theorem produce_copy (s : AOOAppleSender) (hstage : e.stage = .copy)
    (hmore : e.consumedFrameCount < e.call.frameCount) :
    ∃ b n, b = s.beginBlock e.call e.generation e.consumedFrameCount ∧
      n = min (e.call.frameCount - e.consumedFrameCount) (b.streamBlockSize - b.pendingFrameCount) ∧
      s.produce e = (b.copyFrames e.call e.consumedFrameCount n, .enqueueing { e with
        consumedFrameCount := e.consumedFrameCount + n
        stage := if b.pendingFrameCount + n ≠ b.streamBlockSize then .copy else .loadWrite },
        []) := by
  refine ⟨_, _, rfl, rfl, ?_⟩
  unfold AOOAppleSender.produce
  rw [hstage]
  exact if_pos hmore

/-- A turn of the loop over the frames. -/
theorem Inv.copy (hi : Inv h m) (he : h.producer = .enqueueing e) (hstage : e.stage = .copy)
    (hmid : Midway h.sender h.timeline m e done) (hok : StageOk h.sender h.timeline m .copy)
    (hmore : e.consumedFrameCount < e.call.frameCount) : Inv h.produce m := by
  obtain ⟨b, n, hb, hn, hstep⟩ := produce_copy h.sender hstage hmore
  obtain ⟨hbegun, hheld⟩ := hmid.pending.beginBlock hmid.underway hmore
  rw [← hmid.generation, ← hb] at hbegun hheld
  rw [hmid.generation] at hheld
  obtain ⟨count, current, silence, position, ntp, presentation, heq⟩ :=
    beginBlock_eq h.sender e.call e.generation e.consumedFrameCount
  rw [← hb] at heq
  have hsize : b.streamBlockSize = h.timeline.streamBlockSize := by
    rw [heq]
    rfl
  have hcount := held_of_current hbegun.current
  have hroom := hok.1
  have hturn := hbegun.copyFrames hmid.underway (by rw [heq]; rfl) (n := n) (by omega) (by omega)
  have hcopied : (b.copyFrames e.call e.consumedFrameCount n).held h.timeline.generation =
      b.pendingFrameCount + n := held_of_current hturn.current
  have hfits := hturn.fits
  refine hi.turns he hstep ?_ ?_ ?_ ?_ ?_ ?_
  · rw [heq]
    exact ⟨rfl, rfl, rfl, rfl, rfl, rfl, rfl⟩
  · rw [heq]
    rfl
  · rw [heq]
    rfl
  · rw [heq]
    rfl
  · rw [heq]
    rfl
  · rw [List.append_nil]
    refine ⟨done + n, ⟨hmid.generation, hmid.underway.advance (by omega), hturn.toPending⟩, ?_⟩
    show StageOk _ h.timeline m (if _ then _ else _)
    split
    next hne => exact ⟨by omega, hok.2⟩
    next heq => exact ⟨by rw [Full]; omega, hok.2⟩

/-- The end of the loop over the frames. -/
theorem Inv.finish (hi : Inv h m) (he : h.producer = .enqueueing e) (hstage : e.stage = .copy)
    (hmid : Midway h.sender h.timeline m e done) (hok : StageOk h.sender h.timeline m .copy)
    (hmore : ¬ e.consumedFrameCount < e.call.frameCount) : Inv h.produce m := by
  have hframes := hmid.underway.frames_eq
  have hle := hmid.underway.consumed_le
  have hdone : h.timeline.frames = done := by omega
  have hstep : h.sender.produce e = (h.sender, .idle e.result, []) := by
    unfold AOOAppleSender.produce
    rw [hstage]
    exact if_neg hmore
  refine hi.turns he hstep ⟨rfl, rfl, rfl, rfl, rfl, rfl, rfl⟩ rfl rfl rfl rfl ?_
  rw [List.append_nil]
  exact ⟨hdone ▸ hmid.pending, hok⟩

/-- A load of the producer's own index. -/
theorem Inv.loadWrite (hi : Inv h m) (he : h.producer = .enqueueing e)
    (hstage : e.stage = .loadWrite) (hmid : Midway h.sender h.timeline m e done)
    (hok : StageOk h.sender h.timeline m .loadWrite) : Inv h.produce m := by
  have hstep : h.sender.produce e = (h.sender,
      .enqueueing { e with stage := .loadRead h.sender.processWriteIndex }, []) := by
    unfold AOOAppleSender.produce
    rw [hstage]
  refine hi.turns he hstep ⟨rfl, rfl, rfl, rfl, rfl, rfl, rfl⟩ rfl rfl rfl rfl ?_
  rw [List.append_nil]
  exact ⟨done, ⟨hmid.generation, hmid.underway, hmid.pending⟩, hok.1, hok.2, rfl⟩

/-- The complete block stays as it is while it is decided where it goes. -/
theorem Midway.decide {s : AOOAppleSender} {calls : List EnqueueCall} {fates : List Fate}
    (hmid : Midway s (s.timeline calls fates) m e done) (fate : Fate) (stage : ProducerStage) :
    Midway s (s.timeline calls (fates ++ [fate])) m { e with stage } done := by
  refine ⟨hmid.generation, ?_, hmid.pending.extend (timeline_extends s calls fates [fate])⟩
  exact ⟨hmid.underway.last, hmid.underway.consumed_le, hmid.underway.placed, hmid.underway.fits⟩

/-- The fate of one more block is decided. -/
theorem decided_concat {s : AOOAppleSender} {calls : List EnqueueCall} {fates : List Fate}
    (hfates : fates.length = m.next) (fate : Fate) :
    Decided (s.timeline calls (fates ++ [fate])) m fate := by
  refine ⟨?_, ?_⟩
  · show (fates ++ [fate]).length = m.next + 1
    rw [List.length_append, List.length_singleton, hfates]
  · show (fates ++ [fate])[m.next]? = some fate
    rw [← hfates, List.getElem?_concat_length]

/-- The load of the worker's index decides where the block goes. -/
theorem Inv.loadRead (hi : Inv h m) (he : h.producer = .enqueueing e) {w : Nat}
    (hstage : e.stage = .loadRead w) (hmid : Midway h.sender h.timeline m e done)
    (hok : StageOk h.sender h.timeline m (.loadRead w)) : Inv h.produce m := by
  obtain ⟨hfull, hfates, rfl⟩ := hok
  have hcount := hi.blocks.count
  have hsub := wrapSub_eq (show h.sender.processReadIndex ≤ h.sender.processWriteIndex by omega)
    hi.writeFits
  by_cases hroom : h.sender.processQueue.length ≤
    wrapSub h.sender.processWriteIndex h.sender.processReadIndex
  · have hstep : h.sender.produce e =
        (h.sender, .enqueueing { e with stage := .loadGapWrite }, [.dropped]) := by
      unfold AOOAppleSender.produce
      rw [hstage]
      exact if_pos hroom
    refine hi.turns he hstep ⟨rfl, rfl, rfl, rfl, rfl, rfl, rfl⟩ rfl rfl rfl rfl ?_
    exact ⟨done, hmid.decide .dropped _, hfull, decided_concat hfates _⟩
  · have hstep : h.sender.produce e = (h.sender,
        .enqueueing { e with stage := .fill h.sender.processWriteIndex }, [.queued]) := by
      unfold AOOAppleSender.produce
      rw [hstage]
      exact if_neg hroom
    refine hi.turns he hstep ⟨rfl, rfl, rfl, rfl, rfl, rfl, rfl⟩ rfl rfl rfl rfl ?_
    exact ⟨done, hmid.decide .queued _, hfull, decided_concat hfates _, rfl, by omega⟩

/-- The slot is filled before anybody can see it. -/
theorem produce_fill (s : AOOAppleSender) {w : Nat} (hstage : e.stage = .fill w) :
    ∃ old, s.produce e = ({ s with
        processQueue := s.processQueue.set (w % s.processQueue.length) (s.pendingBlock old) },
      .enqueueing { e with stage := .publish w }, []) := by
  refine ⟨s.processQueue.getD (w % s.processQueue.length) {}, ?_⟩
  unfold AOOAppleSender.produce
  rw [hstage]

/-- The block is written into the slot behind the queue. -/
theorem Inv.fill (hi : Inv h m) (he : h.producer = .enqueueing e) {w : Nat}
    (hstage : e.stage = .fill w) (hmid : Midway h.sender h.timeline m e done)
    (hok : StageOk h.sender h.timeline m (.fill w)) : Inv h.produce m := by
  obtain ⟨hfull, hdecided, rfl, hroom⟩ := hok
  obtain ⟨old, hstep⟩ := produce_fill h.sender hstage
  have hblock := hmid.pending.isBlock hfull hi.size hdecided.2 old
  have hlength : (h.sender.processQueue.set (h.sender.processWriteIndex %
      h.sender.processQueue.length) (h.sender.pendingBlock old)).length =
        h.sender.processQueue.length := List.length_set
  refine hi.produced he hstep ⟨⟨rfl, rfl, rfl, rfl, rfl, rfl, rfl⟩, Merge.Grows.refl m,
    fun hne => ?_, hi.blocks.fill hroom _, hi.gaps, hi.writeFits, hi.gapWriteFits, hi.writeEarly,
    hi.gapWriteEarly, hi.ordered, hi.lost, ?_⟩
  · have hread : h.sender.processReadIndex < h.sender.processWriteIndex := by
      have := hi.blocks.count
      have := List.length_pos_iff.mpr hne
      omega
    rw [hlength, List.getElem?_set_ne (hi.blocks.free hroom (Nat.le_refl _) hread).symm]
  · rw [List.append_nil]
    refine ⟨done, ⟨hmid.generation, hmid.underway, hmid.pending.congr rfl rfl rfl rfl rfl⟩,
      hfull, hdecided, rfl, hroom.trans_eq hlength.symm, _, ?_, hblock⟩
    show (h.sender.processQueue.set _ _)[_ % (h.sender.processQueue.set _ _).length]? = _
    rw [hlength, List.getElem?_set_self (Nat.mod_lt _ hi.blocks.pos)]

/-- The write index makes the block visible. -/
theorem produce_publish (s : AOOAppleSender) {w : Nat} (hstage : e.stage = .publish w) :
    s.produce e = ({ s with processWriteIndex := wrapAdd w 1, pendingFrameCount := 0 },
      .enqueueing { e with stage := .copy }, []) := by
  unfold AOOAppleSender.produce
  rw [hstage]

/-- The next block begins empty when this one has gone to a queue or is lost. -/
theorem Midway.next {s : AOOAppleSender} {t : Timeline} {m' : Merge}
    (hmid : Midway s t m e done) (hfull : Full s t) (hsize : 0 < t.streamBlockSize)
    (hdecided : t.fates.length = m.next + 1) (hnext : m'.next = m.next + 1)
    (writeIndex gapWriteIndex : Nat) (result : Except AooError Unit) :
    ProducerOk { s with
      processWriteIndex := writeIndex
      processGapWriteIndex := gapWriteIndex
      pendingFrameCount := 0 } t m' (.enqueueing { e with result, stage := .copy }) := by
  have hreset : Pending { s with
      processWriteIndex := writeIndex
      processGapWriteIndex := gapWriteIndex
      pendingFrameCount := 0 } t (m.next + 1) done :=
    (hmid.pending.reset hfull).congr rfl rfl rfl rfl rfl
  refine ⟨done, ⟨hmid.generation, hmid.underway, hnext ▸ hreset⟩, ?_, hdecided.trans hnext.symm⟩
  exact Eq.trans_lt (ite_self _) hsize

/-- With 16 frames in a block, positions below `2^64` are those of at most `2^60` blocks. -/
theorem Midway.next_lt {s : AOOAppleSender} {t : Timeline} (hmid : Midway s t m e done)
    (hfull : Full s t) (hwide : 16 ≤ t.streamBlockSize) : m.next < 2 ^ 60 := by
  have hframes := hmid.underway.frames_eq
  have hplaced := hmid.underway.placed
  have hfits := hmid.underway.fits
  have hwithin := hmid.pending.within
  have hdone := hmid.pending.done_eq
  have hheld : s.held t.generation = t.streamBlockSize := hfull
  have hblocks : m.next * 16 ≤ m.next * t.streamBlockSize := Nat.mul_le_mul_left _ hwide
  omega

/-- The block joins the process queue. -/
theorem Inv.publish (hi : Inv h m) (he : h.producer = .enqueueing e) {w : Nat}
    (hstage : e.stage = .publish w) (hmid : Midway h.sender h.timeline m e done)
    (hok : StageOk h.sender h.timeline m (.publish w)) : Inv h.produce m.push := by
  obtain ⟨hfull, hdecided, rfl, hroom, b, hslot, hb⟩ := hok
  have hstep := produce_publish h.sender hstage
  have hnext := hmid.next_lt hfull hi.wide
  have hearly := hi.writeEarly
  have hfits : h.sender.processWriteIndex + 1 < 2 ^ 64 := by omega
  rw [wrapAdd_one (Nat.lt_succ_self _) hfits] at hstep
  refine hi.produced he hstep ⟨⟨rfl, rfl, rfl, rfl, rfl, rfl, rfl⟩, hi.ordered.grows_push,
    fun _ => rfl, hi.blocks.publish hroom hslot hb, hi.gaps, hfits, hi.gapWriteFits,
    Nat.succ_le_succ hearly, Nat.le_succ_of_le hi.gapWriteEarly, hi.ordered.push, hi.lost, ?_⟩
  rw [List.append_nil]
  exact hmid.next hfull hi.size hdecided.1 rfl _ _ _

/-- A full block queue leads to the gaps. -/
theorem Inv.loadGapWrite (hi : Inv h m) (he : h.producer = .enqueueing e)
    (hstage : e.stage = .loadGapWrite) (hmid : Midway h.sender h.timeline m e done)
    (hok : StageOk h.sender h.timeline m .loadGapWrite) : Inv h.produce m := by
  have hstep : h.sender.produce e = (h.sender,
      .enqueueing { e with stage := .loadGapRead h.sender.processGapWriteIndex }, []) := by
    unfold AOOAppleSender.produce
    rw [hstage]
  refine hi.turns he hstep ⟨rfl, rfl, rfl, rfl, rfl, rfl, rfl⟩ rfl rfl rfl rfl ?_
  rw [List.append_nil]
  exact ⟨done, ⟨hmid.generation, hmid.underway, hmid.pending⟩, hok.1, hok.2, rfl⟩

/-- A gap is lost if the gap queue is full. -/
theorem Inv.loadGapRead (hi : Inv h m) (he : h.producer = .enqueueing e) {w : Nat}
    (hstage : e.stage = .loadGapRead w) (hmid : Midway h.sender h.timeline m e done)
    (hok : StageOk h.sender h.timeline m (.loadGapRead w)) : ∃ m', Inv h.produce m' := by
  obtain ⟨hfull, hdecided, rfl⟩ := hok
  have hcount := hi.gaps.count
  have hsub := wrapSub_eq
    (show h.sender.processGapReadIndex ≤ h.sender.processGapWriteIndex by omega) hi.gapWriteFits
  by_cases hroom : wrapSub h.sender.processGapWriteIndex h.sender.processGapReadIndex <
    h.sender.processGapQueue.length
  · have hstep : h.sender.produce e = (h.sender,
        .enqueueing { e with stage := .fillGap h.sender.processGapWriteIndex }, []) := by
      unfold AOOAppleSender.produce
      rw [hstage]
      exact if_pos hroom
    refine ⟨m, hi.turns he hstep ⟨rfl, rfl, rfl, rfl, rfl, rfl, rfl⟩ rfl rfl rfl rfl ?_⟩
    rw [List.append_nil]
    exact ⟨done, ⟨hmid.generation, hmid.underway, hmid.pending⟩, hfull, hdecided, rfl, by omega⟩
  · have hstep : h.sender.produce e = ({ h.sender with pendingFrameCount := 0 },
        .enqueueing { e with result := .error kAooErrorWouldBlock, stage := .copy }, []) := by
      unfold AOOAppleSender.produce
      rw [hstage]
      exact if_neg hroom
    refine ⟨m.lose, hi.produced he hstep ⟨⟨rfl, rfl, rfl, rfl, rfl, rfl, rfl⟩,
      Merge.grows_lose m, fun _ => rfl, hi.blocks, hi.gaps, hi.writeFits, hi.gapWriteFits,
      Nat.le_succ_of_le hi.writeEarly, Nat.le_succ_of_le hi.gapWriteEarly, hi.ordered.lose,
      fun _ => hi.full (by omega), ?_⟩⟩
    rw [List.append_nil]
    exact hmid.next hfull hi.size hdecided.1 rfl _ _ _

/-- The slot of a gap is filled the same way. -/
theorem produce_fillGap (s : AOOAppleSender) {w : Nat} (hstage : e.stage = .fillGap w) :
    s.produce e = ({ s with
        processGapQueue := s.processGapQueue.set (w % s.processGapQueue.length) s.pendingGap },
      .enqueueing { e with stage := .publishGap w }, []) := by
  unfold AOOAppleSender.produce
  rw [hstage]

/-- The gap is written into the slot behind the gap queue. -/
theorem Inv.fillGap (hi : Inv h m) (he : h.producer = .enqueueing e) {w : Nat}
    (hstage : e.stage = .fillGap w) (hmid : Midway h.sender h.timeline m e done)
    (hok : StageOk h.sender h.timeline m (.fillGap w)) : Inv h.produce m := by
  obtain ⟨hfull, hdecided, rfl, hroom⟩ := hok
  have hstep := produce_fillGap h.sender hstage
  have hgap := hmid.pending.isGap hfull hi.size hdecided.2
  have hlength : (h.sender.processGapQueue.set (h.sender.processGapWriteIndex %
      h.sender.processGapQueue.length) h.sender.pendingGap).length =
        h.sender.processGapQueue.length := List.length_set
  refine hi.produced he hstep ⟨⟨rfl, rfl, rfl, rfl, rfl, rfl, rfl⟩, Merge.Grows.refl m,
    fun _ => rfl, hi.blocks, hi.gaps.fill hroom _, hi.writeFits, hi.gapWriteFits, hi.writeEarly,
    hi.gapWriteEarly, hi.ordered, hi.lost, ?_⟩
  rw [List.append_nil]
  refine ⟨done, ⟨hmid.generation, hmid.underway, hmid.pending.congr rfl rfl rfl rfl rfl⟩,
    hfull, hdecided, rfl, hroom.trans_eq hlength.symm, _, ?_, hgap⟩
  show (h.sender.processGapQueue.set _ _)[_ % (h.sender.processGapQueue.set _ _).length]? = _
  rw [hlength, List.getElem?_set_self (Nat.mod_lt _ hi.gaps.pos)]

/-- The gap is made visible by the write index of its own queue. -/
theorem produce_publishGap (s : AOOAppleSender) {w : Nat} (hstage : e.stage = .publishGap w) :
    s.produce e = ({ s with processGapWriteIndex := wrapAdd w 1, pendingFrameCount := 0 },
      .enqueueing { e with result := .error kAooErrorWouldBlock, stage := .copy }, []) := by
  unfold AOOAppleSender.produce
  rw [hstage]

/-- The gap joins the gap queue. -/
theorem Inv.publishGap (hi : Inv h m) (he : h.producer = .enqueueing e) {w : Nat}
    (hstage : e.stage = .publishGap w) (hmid : Midway h.sender h.timeline m e done)
    (hok : StageOk h.sender h.timeline m (.publishGap w)) : Inv h.produce m.divert := by
  obtain ⟨hfull, hdecided, rfl, hroom, g, hslot, hg⟩ := hok
  have hstep := produce_publishGap h.sender hstage
  have hnext := hmid.next_lt hfull hi.wide
  have hearly := hi.gapWriteEarly
  have hfits : h.sender.processGapWriteIndex + 1 < 2 ^ 64 := by omega
  rw [wrapAdd_one (Nat.lt_succ_self _) hfits] at hstep
  refine hi.produced he hstep ⟨⟨rfl, rfl, rfl, rfl, rfl, rfl, rfl⟩, hi.ordered.grows_divert,
    fun _ => rfl, hi.blocks, hi.gaps.publish hroom hslot hg, hi.writeFits, hfits,
    Nat.le_succ_of_le hi.writeEarly, Nat.succ_le_succ hearly, hi.ordered.divert, hi.lost, ?_⟩
  rw [List.append_nil]
  exact hmid.next hfull hi.size hdecided.1 rfl _ _ _

/-- **A step of the producer** keeps the invariant. -/
theorem Inv.produce (hi : Inv h m) : ∃ m', Inv h.produce m' := by
  have hproducer := hi.producer
  cases he : h.producer with
  | idle result =>
    refine ⟨m, ?_⟩
    unfold Handoff.produce
    rw [he]
    exact hi
  | enqueueing e =>
    rw [he] at hproducer
    obtain ⟨done, hmid, hok⟩ := hproducer
    cases hstage : e.stage with
    | copy =>
      rw [hstage] at hok
      by_cases hmore : e.consumedFrameCount < e.call.frameCount
      · exact ⟨m, hi.copy he hstage hmid hok hmore⟩
      · exact ⟨m, hi.finish he hstage hmid hok hmore⟩
    | loadWrite => exact ⟨m, hi.loadWrite he hstage hmid (hstage ▸ hok)⟩
    | loadRead w => exact ⟨m, hi.loadRead he hstage hmid (hstage ▸ hok)⟩
    | fill w => exact ⟨m, hi.fill he hstage hmid (hstage ▸ hok)⟩
    | publish w => exact ⟨m.push, hi.publish he hstage hmid (hstage ▸ hok)⟩
    | loadGapWrite => exact ⟨m, hi.loadGapWrite he hstage hmid (hstage ▸ hok)⟩
    | loadGapRead w => exact hi.loadGapRead he hstage hmid (hstage ▸ hok)
    | fillGap w => exact ⟨m, hi.fillGap he hstage hmid (hstage ▸ hok)⟩
    | publishGap w => exact ⟨m.divert, hi.publishGap he hstage hmid (hstage ▸ hok)⟩

/-! ## Whole runs -/

/-- A call begins where the timeline ends. -/
theorem Inv.callback (hi : Inv h m) (c : SenderCall) (hcontiguous : h.contiguous (.call c) = true)
    (hfits : h.fits (.call c) = true) : Inv (h.callback c) m := by
  unfold Handoff.callback
  have hproducer := hi.producer
  split
  next => exact hi
  next result hp =>
    rw [hp] at hproducer
    split
    next result' hentered => exact { hi with producer := hproducer }
    next call hentered =>
      simp only [Handoff.contiguous, hentered] at hcontiguous
      simp only [Handoff.fits, hentered, decide_eq_true_eq] at hfits
      have hsize := hi.size
      have ht : h.timeline.Extends (h.sender.timeline (h.calls ++ [call]) h.fates) :=
        ⟨rfl, rfl, rfl, List.prefix_append _ _, List.prefix_rfl⟩
      have hframes : (h.sender.timeline (h.calls ++ [call]) h.fates).frames =
          h.timeline.frames + call.frameCount := by
        show ((h.calls ++ [call]).map _).sum = _
        rw [List.map_append, List.sum_append]
        rfl
      -- the position of the call
      have hplaced : call.sourceSamplePosition =
          (h.sender.timeline (h.calls ++ [call]) h.fates).first + h.timeline.frames := by
        cases hlast : h.calls.getLast? with
        | none =>
          have hnil := List.getLast?_eq_none_iff.mp hlast
          show _ = (h.sender.timeline (h.calls ++ [call]) h.fates).first +
            (h.calls.map (·.frameCount)).sum
          rw [hnil]
          rfl
        | some last =>
          rw [hlast, Option.all_some, beq_iff_eq] at hcontiguous
          have hfirst : (h.sender.timeline (h.calls ++ [call]) h.fates).first =
              h.timeline.first := by
            cases hcalls : h.calls with
            | nil =>
              rw [hcalls] at hlast
              cases hlast
            | cons c cs =>
              show _ = (h.sender.timeline h.calls h.fates).first
              rw [hcalls]
              rfl
          rw [hcontiguous, hi.contiguous last hlast, hfirst]
      refine { hi with
        blocks := hi.blocks.imp fun k b hb => hb.extend ht hsize
        gaps := hi.gaps.imp fun k g hg => hg.extend ht hsize
        contiguous := ?_
        producer := ?_
        worker := hi.worker.kept rfl rfl ht hsize (Merge.Grows.refl m) (fun _ => rfl)
        played := ?_ }
      · intro last hlast
        have hlast : last ∈ (h.calls ++ [call]).getLast? := hlast
        rw [List.getLast?_concat, Option.mem_some_iff] at hlast
        show _ = (h.sender.timeline (h.calls ++ [call]) h.fates).first +
          (h.sender.timeline (h.calls ++ [call]) h.fates).frames
        rw [← hlast, hframes, hplaced, Nat.add_assoc]
      · refine ⟨h.timeline.frames, ⟨rfl, ⟨⟨h.calls, rfl, rfl⟩, Nat.zero_le _, hplaced, hfits⟩,
          hproducer.1.extend ht⟩, hproducer.2⟩
      · obtain ⟨ks, hprefix, henabled, hall⟩ := hi.played
        exact ⟨ks, hprefix, henabled, hall.imp fun k p hp => hp.extend ht hsize⟩

/-- Every step of either thread keeps the invariant. -/
theorem Inv.step (hi : Inv h m) (e : HandoffEvent) (hregular : h.Regular e) :
    ∃ m', Inv (h.step e) m' := by
  obtain ⟨hcontiguous, hfits⟩ := hregular
  cases e with
  | call c => exact ⟨m, hi.callback c hcontiguous hfits⟩
  | producer => exact hi.produce
  | worker => exact hi.work
  | disable =>
    obtain ⟨ks, hprefix, -, hall⟩ := hi.played
    refine ⟨m, { hi with
      producer := hi.producer.mono (fun _ _ hp => hp.congr rfl rfl rfl rfl rfl) rfl ?_
      worker := hi.worker.kept rfl rfl (Timeline.Extends.refl _) hi.size (Merge.Grows.refl m)
        (fun _ => rfl)
      played := ⟨ks, hprefix, nofun, hall⟩ }⟩
    intro stage hs
    cases stage <;> exact hs

/-- Two empty queues. -/
theorem inv_start {s : AOOAppleSender} (hs : s.Resting) : Inv (Handoff.start s) {} := by
  have hheld : (Handoff.start s).sender.held (Handoff.start s).timeline.generation = 0 :=
    if_neg (Nat.ne_of_lt (Nat.lt_succ_of_le hs.stale))
  have hpending : Pending (Handoff.start s).sender (Handoff.start s).timeline 0 0 := by
    refine ⟨?_, ?_, Nat.zero_le _, hs.storage, fun hpos => ?_, fun _ _ => ?_, fun _ _ _ => ?_⟩
    · rw [hheld, Nat.zero_mul]
    · rw [hheld]
      exact Nat.zero_le _
    · rw [hheld] at hpos
      exact absurd hpos (Nat.lt_irrefl 0)
    · rw [hheld, List.take_zero, List.take_zero]
    · rw [hheld]
      rfl
  constructor
  case wide => exact hs.size
  case ready => rfl
  case blocks => exact between_nil hs.blocks _
  case gaps => exact between_nil hs.gaps _
  case writeFits => exact Nat.lt_of_le_of_lt hs.writeEarly (by decide)
  case gapWriteFits => exact Nat.lt_of_le_of_lt hs.gapWriteEarly (by decide)
  case writeEarly => exact hs.writeEarly
  case gapWriteEarly => exact hs.gapWriteEarly
  case ordered => exact Merge.ordered_nil
  case lost => exact fun hne => absurd rfl hne
  case full => exact fun hle => absurd hs.gaps (Nat.not_lt.mpr hle)
  case contiguous => exact nofun
  case producer => exact ⟨hpending, hheld.trans_lt (Nat.lt_of_lt_of_le (by decide) hs.size), rfl⟩
  case worker => exact WorkerOk.idle false
  case played => exact ⟨[], List.prefix_rfl, fun _ => rfl, List.Forall₂.nil⟩

/-- The invariant holds all along a run of regular steps. -/
theorem inv_run {s : AOOAppleSender} (hs : s.Resting) {es : List HandoffEvent}
    (hes : StepsAll Handoff.step Handoff.Regular (Handoff.start s) es) :
    ∀ es', es' <+: es → ∃ m, Inv (es'.foldl Handoff.step (Handoff.start s)) m :=
  hes.invariant (I := fun h => ∃ m, Inv h m)
    (fun _ e ⟨_, hi⟩ hregular => hi.step e hregular) ⟨{}, inv_start hs⟩

/-- A mono sender with blocks of 16 frames and nine slots. -/
def mono : AOOAppleSender := AOOAppleSender.create [0] 48000 16 16

/-- Ten calls of 16 frames from position 0 on, each with the steps that it takes. -/
def tenCalls : List HandoffEvent :=
  (List.range 10).flatMap fun i =>
    .call (.planar (some (List.replicate 16 0x3f800000)) 16 0 1 16 (i * 16) 1 1) ::
      List.replicate 8 .producer

/-- The ten calls come while the worker, which has been told of a block, stands between its loads
of the two write indices. The tenth block finds the process queue full. -/
def tenCallsBetween : List HandoffEvent :=
  tenCalls.take 9 ++ List.replicate 7 .worker ++ tenCalls.drop 9 ++ List.replicate 120 .worker

end Aoo.Apple
