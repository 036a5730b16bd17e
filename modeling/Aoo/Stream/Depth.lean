import Aoo.Lib.Run
import Aoo.Stream.Playout

/-!
# The playout depth

A stream leaves the buffering state when the jitter buffer holds `latencyBlocks`
complete blocks, so that number should not exceed the capacity of the buffer.
`update` computes both. `try_decode_block` follows a new low-latency target on its
own, and there the buffer keeps its size: the depth can be held in every state if
and only if no such change asks for more blocks than the buffer has
(`depth_held_iff`).

`Steady` says what packets and requests leave alone. `Beside` says it exactly for the parts
of which they are made: all but the buffer, the requests and the records.
-/

namespace Aoo.Stream

open Lib

/-! ## What packets leave alone -/

/-- What packets and requests leave alone. -/
structure SourceDesc.Steady (s t : SourceDesc) : Prop extends s.Keeps t where
  position : t.lastAbsoluteSamplePosition = s.lastAbsoluteSamplePosition
  decoded : t.decoded = s.decoded
  capacity : t.jitterBuffer.capacity = s.jitterBuffer.capacity

/-- `reset` keeps the capacity. -/
theorem JitterBuffer.capacity_reset (b : JitterBuffer) : b.reset.capacity = b.capacity :=
  List.length_map ..

/-- `pop` keeps it. -/
theorem JitterBuffer.capacity_pop (b : JitterBuffer) : b.pop.capacity = b.capacity :=
  List.length_set ..

/-- Skipped blocks keep it. -/
theorem JitterBuffer.capacity_advanceMissing (b : JitterBuffer) :
    b.advanceMissing.capacity = b.capacity := by
  unfold JitterBuffer.advanceMissing
  split <;> rfl

/-- A new block keeps it. -/
theorem JitterBuffer.capacity_emplace (b : JitterBuffer) (seq : Int)
    (f : ReceivedBlock → ReceivedBlock) : (b.emplace seq f).capacity = b.capacity :=
  (SourceDesc.modify_frame _ _ _).2

namespace SourceDesc

section

variable {s t u : SourceDesc}

theorem Steady.refl (s : SourceDesc) : s.Steady s := ⟨⟨rfl, rfl, rfl, rfl, rfl⟩, rfl, rfl, rfl⟩

/-- What is steady over two steps. -/
theorem Steady.trans (h : s.Steady t) (h' : t.Steady u) : s.Steady u :=
  ⟨h.toKeeps.trans h'.toKeeps, h'.position.trans h.position, h'.decoded.trans h.decoded,
    h'.capacity.trans h.capacity⟩

/-- Only the buffer, the requests and the records differ, and the buffer keeps its size. -/
structure Beside (s t : SourceDesc) : Prop where
  rest : t = { s with
    jitterBuffer := t.jitterBuffer
    dataRequests := t.dataRequests
    calls := t.calls
    asked := t.asked }
  capacity : t.jitterBuffer.capacity = s.jitterBuffer.capacity

theorem Beside.refl (s : SourceDesc) : s.Beside s := ⟨rfl, rfl⟩

/-- Two steps that only touch the buffer are one. -/
theorem Beside.trans (h : s.Beside t) (h' : t.Beside u) : s.Beside u :=
  ⟨h'.rest.trans (by rw [h.rest]), h'.capacity.trans h.capacity⟩

theorem Beside.streamState (h : s.Beside t) : t.streamState = s.streamState := by rw [h.rest]

theorem Beside.missing (h : s.Beside t) :
    t.consecutiveMissingBlocks = s.consecutiveMissingBlocks := by rw [h.rest]

theorem Beside.stats (h : s.Beside t) : t.stats = s.stats := by rw [h.rest]

/-- The depth depends on capacity and targets, not on the blocks. -/
theorem Beside.steady (h : s.Beside t) : s.Steady t where
  streamId := by rw [h.rest]
  decoder := by rw [h.rest]
  lowLatency := by rw [h.rest]
  latencyBlocks := by rw [h.rest]
  stopped := by rw [h.rest]
  position := by rw [h.rest]
  decoded := by rw [h.rest]
  capacity := h.capacity

/-- A pushed block is in the buffer and in the record of calls. -/
theorem beside_pushBlock (s : SourceDesc) (seq : Int) (f : ReceivedBlock → ReceivedBlock) :
    s.Beside (s.pushBlock seq f) :=
  ⟨rfl, s.jitterBuffer.capacity_emplace seq f⟩

/-- So are placeholders. -/
theorem beside_fillGaps (n : Nat) (seq : Int) (s : SourceDesc) : s.Beside (s.fillGaps seq n) := by
  induction n generalizing s seq with
  | zero => exact .refl s
  | succ n ih => exact (s.beside_pushBlock seq _).trans (ih (seq + 1) _)

/-- A changed slot concerns the buffer only. -/
theorem beside_modify (s : SourceDesc) (slot : Nat) (f : ReceivedBlock → ReceivedBlock) :
    s.Beside { s with jitterBuffer := s.jitterBuffer.modify slot f } :=
  ⟨rfl, (modify_frame _ _ _).2⟩

/-- So does a frame. -/
theorem beside_addFrame (s : SourceDesc) (d : NetPacket) (slot : Nat) :
    s.Beside (s.addFrame d slot) := by
  unfold addFrame
  split
  next => exact ⟨rfl, (modify_frame _ _ _).2⟩
  next => exact .refl s

/-- A packet of a new block: it may clear the buffer, and the stream buffers again. -/
theorem beside_addBlock (s : SourceDesc) (d : NetPacket) :
    ∃ streamState, Beside { s with streamState } (s.addBlock d).1 := by
  have hroom : ∃ streamState, Beside { s with streamState } (s.makeRoom d.sequence) := by
    unfold makeRoom
    dsimp only
    split
    next =>
      split
      next => exact ⟨.buffering, rfl, s.jitterBuffer.capacity_reset⟩
      next => exact ⟨s.streamState, beside_fillGaps _ _ s⟩
    next => exact ⟨s.streamState, .refl s⟩
  unfold addBlock
  split
  next => exact ⟨s.streamState, .refl s⟩
  next =>
    obtain ⟨streamState, hbeside⟩ := hroom
    exact ⟨streamState, (hbeside.trans (beside_pushBlock ..)).trans (beside_addFrame _ d _)⟩

/-- A packet of a block that is there: a frame, and the count of those that were resent. -/
theorem beside_updateBlock (s : SourceDesc) (d : NetPacket) (slot : Nat) :
    ∃ stats, Beside { s with stats } (s.updateBlock d slot).1 := by
  have hnote : ∀ s : SourceDesc, ∃ stats, Beside { s with stats } (s.noteResent d slot) := by
    intro s
    unfold noteResent
    split
    next =>
      exact ⟨if (s.jitterBuffer.slot slot).resent then s.stats
        else { s.stats with resent := s.stats.resent + 1 }, rfl, (modify_frame _ _ _).2⟩
    next => exact ⟨s.stats, .refl s⟩
  unfold updateBlock
  dsimp only
  split
  next =>
    obtain ⟨stats, hstats⟩ := hnote
      { s with jitterBuffer := s.jitterBuffer.modify slot (·.init d.toDataPacket) }
    have hinit := beside_modify { s with stats } slot (·.init d.toDataPacket)
    exact ⟨stats, (hinit.trans hstats).trans (beside_addFrame _ d slot)⟩
  next =>
    split
    next => exact ⟨s.stats, .refl s⟩
    next =>
      have hrecord : ∀ (s : SourceDesc) (c : Call), s.Beside (s.record c) :=
        fun _ _ => ⟨rfl, rfl⟩
      split
      next => exact ⟨s.stats, hrecord s _⟩
      next =>
        obtain ⟨stats, hstats⟩ :=
          hnote (s.record (.hasFrame d.frameIndex (s.jitterBuffer.slot slot).numFrames))
        exact ⟨stats, ((hrecord { s with stats } _).trans hstats).trans
          (beside_addFrame _ d slot)⟩

/-- A stream that wraps starts with an empty buffer. -/
theorem beside_checkWrap {seq : Int} (h : s.checkWrap seq = some t) : s.Beside t := by
  unfold checkWrap at h
  split at h
  next =>
    split at h
    next =>
      cases h
      exact ⟨rfl, s.jitterBuffer.capacity_reset⟩
    next => cases h
  next =>
    cases h
    exact .refl s

/-- What a packet leaves alone. -/
theorem steady_addPacket (s : SourceDesc) (d : NetPacket) : s.Steady (s.addPacket d).1 := by
  unfold addPacket
  split
  next => exact .refl s
  next =>
    split
    next => exact .refl s
    next =>
      split
      next => exact .refl s
      next t ht =>
        have hwrap := (beside_checkWrap ht).steady
        split
        next =>
          obtain ⟨streamState, hblock⟩ := t.beside_addBlock d
          have hstate : t.Steady { t with streamState } :=
            ⟨⟨rfl, rfl, rfl, rfl, rfl⟩, rfl, rfl, rfl⟩
          exact (hwrap.trans hstate).trans hblock.steady
        next slot _ =>
          obtain ⟨stats, hblock⟩ := t.beside_updateBlock d slot
          have hstats : t.Steady { t with stats } := ⟨⟨rfl, rfl, rfl, rfl, rfl⟩, rfl, rfl, rfl⟩
          exact (hwrap.trans hstats).trans hblock.steady

/-- Requests are noted in the blocks. -/
theorem beside_requestBlocks (limit : Int) (l : List (Nat × Bool)) (resent : Nat)
    (s : SourceDesc) : s.Beside (requestBlocks limit l resent s) := by
  induction l generalizing s resent with
  | nil => exact .refl s
  | cons p l ih =>
    obtain ⟨slot, due⟩ := p
    rw [requestBlocks]
    dsimp only
    split
    next =>
      have hstep : s.Beside { s with
          jitterBuffer := s.jitterBuffer.modify slot (·.update s.elapsedTime)
          asked := (slot, s.elapsedTime) :: s.otherAsked slot
          dataRequests := s.dataRequests ++ blockRequests (s.jitterBuffer.slot slot)
          calls := (blockCalls (s.jitterBuffer.slot slot)).reverse ++ s.calls } :=
        ⟨rfl, (modify_frame _ _ _).2⟩
      split
      next => exact hstep
      next => exact hstep.trans (ih (resent + 1) _)
    next => exact ih resent s

/-- And they are all that `check_missing_blocks` does. -/
theorem beside_checkMissingBlocks (s : SourceDesc) (resendEnabled : Bool) (limit : Int)
    (due : List Bool) : s.Beside (s.checkMissingBlocks resendEnabled limit due) := by
  unfold checkMissingBlocks
  split
  next => exact .refl s
  next =>
    split
    next => exact .refl s
    next => exact beside_requestBlocks _ _ _ s

/-- What requests leave alone. -/
theorem steady_checkMissingBlocks (s : SourceDesc) (resendEnabled : Bool) (limit : Int)
    (due : List Bool) : s.Steady (s.checkMissingBlocks resendEnabled limit due) :=
  (s.beside_checkMissingBlocks resendEnabled limit due).steady

end

/-! ## The depth -/

/-- The blocks that playout waits for fit into the jitter buffer. -/
def DepthHeld (s : SourceDesc) : Prop := s.latencyBlocks ≤ s.jitterBuffer.capacity

end SourceDesc

/-- If the action is a `try_decode_block` that finds a new low-latency target, then the
jitter buffer has room for the blocks that the target asks for. -/
def SinkAction.TargetFits (s : SourceDesc) : SinkAction → Prop
  | .tryDecodeBlock i => ∀ c, s.lowLatency = some c → s.decoder.isSome = true →
      i.target > 0 → i.target ≠ c.targetLatencyFrames →
      SourceDesc.lowLatencyResidentBlocks i.target.toNat s.frameSize ≤ s.jitterBuffer.capacity
  | _ => True

/-- Decoding keeps the capacity. -/
theorem Drains.capacity {w m : Bool} {s t : SourceDesc} (h : Drains w s m t) :
    t.jitterBuffer.capacity = s.jitterBuffer.capacity := by
  induction h with
  | refl => rfl
  | keep _ hq hj hp ih => rw [hj, ih]
  | miss _ hq hj hp ih => rw [hj, ih]
  | reset _ hq hj hp ih => rw [hj, JitterBuffer.capacity_reset, ih]
  | pop _ hq hpos hj hp ih => rw [hj, JitterBuffer.capacity_pop, ih]
  | advance _ hq hempty hj hp ih => rw [hj, JitterBuffer.capacity_advanceMissing, ih]
  | decode _ hk hpos hcomplete hj hc hd hp ih => rw [hj, JitterBuffer.capacity_pop, ih]

namespace SourceDesc

/-- A steady step holds the depth. -/
theorem Steady.depthHeld {s t : SourceDesc} (h : s.Steady t) (hs : s.DepthHeld) :
    t.DepthHeld := by
  rw [DepthHeld, h.latencyBlocks, h.capacity]
  exact hs

/-- `update` makes the buffer large enough. -/
theorem depthHeld_update {s : SourceDesc} (h : s.DepthHeld) (u : UpdateArgs) :
    (s.update u).DepthHeld := by
  unfold update
  split
  next => exact h
  next n _ =>
    show _ ≤ (JitterBuffer.resize _ _ _).capacity
    rw [JitterBuffer.capacity_resize]
    exact Nat.le_max_left ..

/-- A new stream sets up its buffer for its own target. -/
theorem depthHeld_restart {s : SourceDesc} (h : s.DepthHeld) (a : StartArgs) :
    (s.restart a).DepthHeld := by
  have hhead : ∀ (t : SourceDesc) (seq : Int), t.DepthHeld →
      ({ t with jitterBuffer := t.jitterBuffer.resetHead seq } : SourceDesc).DepthHeld :=
    fun _ _ ht => ht
  exact hhead _ _ (depthHeld_update h a.update)

/-- And so does `/start`, whatever it finds. -/
theorem depthHeld_handleStart {s : SourceDesc} (h : s.DepthHeld) (a : StartArgs) :
    (s.handleStart a).DepthHeld := by
  unfold handleStart
  split
  next => exact h
  next =>
    simp only
    split
    next =>
      split
      next =>
        refine depthHeld_restart ?_ a
        exact h
      next => exact h
    next =>
      split
      next =>
        refine depthHeld_restart ?_ a
        exact h
      next => exact h

/-- Where a new target asks for more than the buffer has, the depth is lost. -/
theorem depthHeld_tryDecodeBlock {s : SourceDesc} (h : s.DepthHeld)
    (hd : s.decoder.isSome = true) (i : DecodeInput) :
    (s.tryDecodeBlock i).1.DepthHeld ↔ (SinkAction.tryDecodeBlock i).TargetFits s := by
  obtain ⟨m, hdrain⟩ := s.tryDecodeBlock_drains i
  rw [DepthHeld, hdrain.keeps.latencyBlocks, hdrain.capacity, (s.retarget_frame i.target).1]
  unfold retarget SinkAction.TargetFits
  split
  next hnone =>
    simp only [hnone, reduceCtorEq, false_implies, implies_true, iff_true]
    exact h
  next c hc =>
    simp only [hc, Option.some.injEq, forall_eq', hd, forall_const]
    split
    next hnew => exact ⟨fun hle _ _ => hle, fun hle => hle hnew.1 hnew.2⟩
    next hold =>
      refine iff_of_true h fun hpos hne => ?_
      exact absurd ⟨hpos, hne⟩ hold

/-- **One action** keeps the depth if and only if a new target fits. -/
theorem depthHeld_step {s : SourceDesc} (h : s.DepthHeld) (a : SinkAction) :
    (s.step a).DepthHeld ↔ a.TargetFits s := by
  cases a with
  | handleStart a => exact iff_of_true (depthHeld_handleStart h a) trivial
  | update u =>
    refine iff_of_true ?_ trivial
    rw [step]
    split
    next => exact depthHeld_update h u
    next => exact h
  | setState streamState stopped underrun =>
    refine iff_of_true ?_ trivial
    rw [step]
    split <;> exact h
  | handleUnderrun =>
    refine iff_of_true ?_ trivial
    rw [step]
    split
    next =>
      show s.latencyBlocks ≤ s.jitterBuffer.reset.capacity
      rw [JitterBuffer.capacity_reset]
      exact h
    next => exact h
  | addPacket d =>
    refine iff_of_true ?_ trivial
    rw [step]
    split
    next => exact (s.steady_addPacket d).depthHeld h
    next => exact h
  | checkMissingBlocks resendEnabled limit due =>
    refine iff_of_true ?_ trivial
    rw [step]
    split
    next => exact (s.steady_checkMissingBlocks resendEnabled limit due).depthHeld h
    next => exact h
  | tryDecodeBlock i =>
    rw [step]
    split
    next hd => exact depthHeld_tryDecodeBlock h hd i
    next hd => exact iff_of_true h fun c _ hd' => absurd hd' hd

end SourceDesc

/-- **The playout depth can be held** in every state of a run if and only if no new
low-latency target in it asks for more blocks than the jitter buffer has. -/
theorem depth_held_iff (as : List SinkAction) :
    (∀ bs, bs <+: as → (bs.foldl SourceDesc.step {}).DepthHeld) ↔
      StepsAll SourceDesc.step SinkAction.TargetFits {} as := by
  constructor
  · intro hall
    refine stepsAll_iff.mpr fun bs a hbs => ?_
    have hbefore := hall bs ((List.prefix_append bs [a]).trans hbs)
    have hafter := hall (bs ++ [a]) hbs
    rw [List.foldl_append] at hafter
    exact (SourceDesc.depthHeld_step hbefore a).mp hafter
  · have hstart : ({} : SourceDesc).DepthHeld := Nat.zero_le _
    exact StepsAll.invariant (I := SourceDesc.DepthHeld)
      (fun s a hs ha => (SourceDesc.depthHeld_step hs a).mpr ha) hstart

/-- A stream with blocks of 64 frames starts with a target of two blocks and a buffer for
four. Then the user asks for ten blocks: playout waits for eleven. -/
theorem depth_lost_new_target :
    let c : AooLowLatencyStreamConfiguration :=
      ⟨1, 1, 1, 1, 64, 1024, 1, 48000, 128, 7, [0]⟩
    let as : List SinkAction :=
      [.handleStart ⟨7, 0, some c, some 64, true, ⟨0, 2, 1, 4, [], by decide⟩, by decide⟩,
        .tryDecodeBlock ⟨640, false, false, true⟩]
    c.validate = true ∧ (as.foldl SourceDesc.step {}).latencyBlocks = 11 ∧
      (as.foldl SourceDesc.step {}).jitterBuffer.capacity = 4 ∧
      ¬ ∀ bs, bs <+: as → (bs.foldl SourceDesc.step {}).DepthHeld := by
  intro c as
  have hlatency : (as.foldl SourceDesc.step {}).latencyBlocks = 11 := by decide +kernel
  have hcapacity : (as.foldl SourceDesc.step {}).jitterBuffer.capacity = 4 := by decide +kernel
  refine ⟨by decide +kernel, hlatency, hcapacity, fun hall => ?_⟩
  have hheld := hall as (List.prefix_refl _)
  rw [SourceDesc.DepthHeld, hlatency, hcapacity] at hheld
  exact absurd hheld (by decide)

end Aoo.Stream
