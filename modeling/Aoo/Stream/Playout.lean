import Aoo.Stream.Arrival

/-!
# The jitter buffer stays consistent

`Drains` says what `try_decode_block` can do to the jitter buffer: it pops blocks
while there are any, moves an empty buffer on, or clears it. With `Adds` for
packets this covers everything that happens to the buffer, and the invariant
holds in every state that a sink can reach (`run_consistent`).
-/

namespace Aoo.Stream

open Lib

namespace JitterBuffer

/-- What the blocks from tail to head and the counters should look like. -/
structure Consistent (b : JitterBuffer) : Prop where
  consecutive : b.blocks.map (·.sequence) =
    (List.range b.size).map fun i : Nat => b.lastPushed - b.size + 1 + i
  size_le : b.size ≤ b.capacity
  head_eq : b.head = (b.tail + b.size) % b.capacity
  popped : b.lastPopped = sentinel ∨
    ∀ first, b.blocks.head? = some first → b.lastPopped < first.sequence

/-- What the invariant is for. -/
theorem Strong.consistent {b : JitterBuffer} {bs fs : List ReceivedBlock} (h : b.Strong bs fs) :
    b.Consistent := by
  have htotal := h.ring.total
  have hsize := h.ring.size
  refine ⟨?_, by omega, h.ring.head, ?_⟩
  · rw [h.ring.blocks_eq, hsize]
    refine List.ext_getElem (by simp) fun i h1 h2 => ?_
    rw [List.getElem_map, List.getElem_map, List.getElem_range]
    exact h.sequence i (by simpa using h1)
  · refine h.popped.imp_right fun hp first hfirst => ?_
    rw [h.ring.blocks_eq] at hfirst
    cases bs with
    | nil => cases hfirst
    | cons x bs =>
      cases hfirst
      have := h.sequence 0 (by simp)
      simp only [List.getElem_cons_zero] at this
      omega

end JitterBuffer

/-! ## `try_decode_block` -/

/-- The buffer has the invariant. -/
def SourceDesc.Sound (s : SourceDesc) : Prop := ∃ bs fs, s.jitterBuffer.Strong bs fs

/-- What draining leaves alone. -/
structure SourceDesc.Keeps (s t : SourceDesc) : Prop where
  streamId : t.streamId = s.streamId
  decoder : t.decoder = s.decoder
  lowLatency : t.lowLatency = s.lowLatency
  latencyBlocks : t.latencyBlocks = s.latencyBlocks
  stopped : t.stopped = s.stopped

/-- Nothing is requested or counted as resent either. -/
structure SourceDesc.Holds (s t : SourceDesc) : Prop extends s.Keeps t where
  asked : t.asked = s.asked
  resent : t.stats.resent = s.stats.resent

/-- Nothing goes to the decoder either. -/
structure SourceDesc.Quiet (s t : SourceDesc) : Prop extends s.Holds t where
  calls : t.calls = s.calls
  decoded : t.decoded = s.decoded

/-- The calls for a block that goes to the decoder. -/
def frontCalls (b : ReceivedBlock) : List Call :=
  if b.totalSize > 0 then [.copyFrames b.frames.copyFrames b.totalSize b.messageSize] else []

/-- What `try_decode_block` can do to the jitter buffer and to the position, step
by step. The position moves on for a missing block at most once. That a block is
there to be given up is known for a sound buffer only. -/
inductive Drains (written : Bool) (s : SourceDesc) : Bool → SourceDesc → Prop
  | refl : Drains written s false s
  | keep {missed : Bool} {t t' : SourceDesc} (h : Drains written s missed t) (hq : t.Quiet t')
      (hj : t'.jitterBuffer = t.jitterBuffer)
      (hp : t'.lastAbsoluteSamplePosition = t.lastAbsoluteSamplePosition) :
      Drains written s missed t'
  | miss {t t' : SourceDesc} (h : Drains written s false t) (hq : t.Quiet t')
      (hj : t'.jitterBuffer = t.jitterBuffer)
      (hp : t'.lastAbsoluteSamplePosition =
        t.lastAbsoluteSamplePosition + UInt64.ofNat t.frameSize) : Drains written s true t'
  | reset {missed : Bool} {t t' : SourceDesc} (h : Drains written s missed t) (hq : t.Quiet t')
      (hj : t'.jitterBuffer = t.jitterBuffer.reset)
      (hp : t'.lastAbsoluteSamplePosition = t.lastAbsoluteSamplePosition) :
      Drains written s missed t'
  | pop {missed : Bool} {t t' : SourceDesc} (h : Drains written s missed t) (hq : t.Quiet t')
      (hpos : s.Sound → 0 < t.jitterBuffer.size) (hj : t'.jitterBuffer = t.jitterBuffer.pop)
      (hp : t'.lastAbsoluteSamplePosition = t.lastAbsoluteSamplePosition ∨
        t'.lastAbsoluteSamplePosition =
          max t.lastAbsoluteSamplePosition (t.blockEnd t.jitterBuffer.front)) :
      Drains written s missed t'
  | advance {missed : Bool} {t t' : SourceDesc} (h : Drains written s missed t) (hq : t.Quiet t')
      (hempty : t.jitterBuffer.size = 0) (hj : t'.jitterBuffer = t.jitterBuffer.advanceMissing)
      (hp : t'.lastAbsoluteSamplePosition = t.lastAbsoluteSamplePosition) :
      Drains written s missed t'
  | decode {missed : Bool} {t t' : SourceDesc} (h : Drains written s missed t) (hk : t.Holds t')
      (hpos : 0 < t.jitterBuffer.size) (hcomplete : t.jitterBuffer.front.complete = true)
      (hj : t'.jitterBuffer = t.jitterBuffer.pop)
      (hc : t'.calls = frontCalls t.jitterBuffer.front ++ t.calls)
      (hd : t'.decoded = t.jitterBuffer.front :: t.decoded)
      (hp : (t'.lastAbsoluteSamplePosition = t.lastAbsoluteSamplePosition ∧
          (written = false ∨ t.lowLatency = none)) ∨
        t'.lastAbsoluteSamplePosition =
          max t.lastAbsoluteSamplePosition (t.blockEnd t.jitterBuffer.front)) :
      Drains written s missed t'

theorem SourceDesc.Keeps.refl (s : SourceDesc) : s.Keeps s := ⟨rfl, rfl, rfl, rfl, rfl⟩

theorem SourceDesc.Holds.refl (s : SourceDesc) : s.Holds s := ⟨.refl s, rfl, rfl⟩

/-- What is kept over two steps is kept. -/
theorem SourceDesc.Keeps.trans {s t u : SourceDesc} (h : s.Keeps t) (h' : t.Keeps u) :
    s.Keeps u where
  streamId := h'.streamId.trans h.streamId
  decoder := h'.decoder.trans h.decoder
  lowLatency := h'.lowLatency.trans h.lowLatency
  latencyBlocks := h'.latencyBlocks.trans h.latencyBlocks
  stopped := h'.stopped.trans h.stopped

/-- The jitter buffer and what was decoded are held over two steps. -/
theorem SourceDesc.Holds.trans {s t u : SourceDesc} (h : s.Holds t) (h' : t.Holds u) :
    s.Holds u :=
  ⟨h.toKeeps.trans h'.toKeeps, h'.asked.trans h.asked, h'.resent.trans h.resent⟩

/-- Draining gives nothing to the buffer. -/
theorem Drains.holds {w m : Bool} {s t : SourceDesc} (h : Drains w s m t) : s.Holds t := by
  induction h with
  | refl => exact .refl s
  | keep _ hq hj hp ih => exact ih.trans hq.toHolds
  | miss _ hq hj hp ih => exact ih.trans hq.toHolds
  | reset _ hq hj hp ih => exact ih.trans hq.toHolds
  | pop _ hq hpos hj hp ih => exact ih.trans hq.toHolds
  | advance _ hq hempty hj hp ih => exact ih.trans hq.toHolds
  | decode _ hk hpos hcomplete hj hc hd hp ih => exact ih.trans hk

/-- Draining leaves the settings alone. -/
theorem Drains.keeps {w m : Bool} {s t : SourceDesc} (h : Drains w s m t) : s.Keeps t :=
  h.holds.toKeeps

/-- A ring with blocks has a first one. -/
theorem JitterBuffer.Strong.exists_cons {b : JitterBuffer} {bs fs : List ReceivedBlock}
    (h : b.Strong bs fs) (hpos : 0 < b.size) : ∃ x bs', bs = x :: bs' := by
  rw [h.ring.size] at hpos
  exact List.exists_cons_of_length_pos hpos

/-- A buffer of size zero holds no block. -/
theorem JitterBuffer.Strong.eq_nil {b : JitterBuffer} {bs fs : List ReceivedBlock}
    (h : b.Strong bs fs) (hempty : b.size = 0) : bs = [] := by
  rw [h.ring.size] at hempty
  exact List.length_eq_zero_iff.mp hempty

/-- Draining keeps the invariant. -/
theorem Drains.sound {w m : Bool} {s t : SourceDesc} (h : Drains w s m t) (hs : s.Sound) :
    t.Sound := by
  have hpop : ∀ {t : SourceDesc}, t.Sound → 0 < t.jitterBuffer.size →
      ∃ bs fs, t.jitterBuffer.pop.Strong bs fs := by
    intro t ⟨bs, fs, ht⟩ hpos
    obtain ⟨x, bs, rfl⟩ := ht.exists_cons hpos
    exact ⟨_, _, ht.pop⟩
  induction h with
  | refl => exact hs
  | keep _ hq hj hp ih => rwa [SourceDesc.Sound, hj]
  | miss _ hq hj hp ih => rwa [SourceDesc.Sound, hj]
  | reset _ hq hj hp ih =>
    obtain ⟨bs, fs, ht⟩ := ih
    exact ⟨_, _, by rw [hj]; exact JitterBuffer.strong_reset ht.ring.capacity_pos⟩
  | pop _ hq hpos hj hp ih =>
    rw [SourceDesc.Sound, hj]
    exact hpop ih (hpos hs)
  | advance _ hq hempty hj hp ih =>
    obtain ⟨bs, fs, ht⟩ := ih
    obtain rfl := ht.eq_nil hempty
    exact ⟨_, _, by rw [hj]; exact ht.advanceMissing⟩
  | decode _ hk hpos hcomplete hj hc hd hp ih =>
    rw [SourceDesc.Sound, hj]
    exact hpop ih hpos

namespace SourceDesc

section

variable {w : Bool} {s t : SourceDesc}

/-- An expired block is popped. -/
theorem expire_drains (h : Drains w s false t) (hpos : s.Sound → 0 < t.jitterBuffer.size) :
    Drains w s false t.expire :=
  h.pop ⟨⟨⟨rfl, rfl, rfl, rfl, rfl⟩, rfl, rfl⟩, rfl, rfl⟩ hpos rfl (Or.inr rfl)

/-- At most all blocks are complete. -/
theorem countComplete_le (bs : List ReceivedBlock) : countComplete bs ≤ bs.length := by
  induction bs with
  | nil => exact Nat.le_refl _
  | cons b bs ih =>
    unfold countComplete
    split <;> simp only [List.length_cons] <;> omega

/-- There are at most as many complete blocks as blocks. -/
theorem Sound.completeBlocks_le {s : SourceDesc} (h : s.Sound) :
    s.completeBlocks ≤ s.jitterBuffer.size := by
  obtain ⟨bs, fs, h⟩ := h
  rw [completeBlocks, h.ring.iterate_eq, h.ring.size]
  exact countComplete_le bs

/-- Trimming pops as many blocks as it is told. -/
theorem trim_drains (h : Drains w s false t) {n : Nat}
    (hn : s.Sound → n ≤ t.jitterBuffer.size) : Drains w s false (t.trim n) := by
  induction n generalizing t with
  | zero => exact h
  | succ n ih =>
    rw [trim]
    refine ih (expire_drains h fun hs => Nat.lt_of_lt_of_le (Nat.succ_pos n) (hn hs)) fun hs => ?_
    show n ≤ t.jitterBuffer.size - 1
    have := hn hs
    omega

/-- Blocks that were overtaken are popped one by one. -/
theorem discardStale_drains (h : Drains w s false t) (fuel : Nat) :
    Drains w s false (t.discardStale fuel) := by
  induction fuel generalizing t with
  | zero => exact h
  | succ fuel ih =>
    unfold discardStale
    split
    next => exact h
    next hne =>
      split
      next => exact h
      next =>
        refine ih (expire_drains h fun _ => ?_)
        rw [Bool.or_eq_true, not_or] at hne
        simpa [JitterBuffer.empty, Nat.pos_iff_ne_zero] using hne.1

/-- Buffering ends with blocks still in the buffer, or with the buffer cleared. -/
theorem buffer_drains (s : SourceDesc) (i : DecodeInput) :
    Drains w s false (s.buffer i).1 := by
  unfold buffer
  split
  next => exact .refl
  next =>
    simp only
    -- stale blocks
    obtain ⟨t, ht, hdef⟩ : ∃ t, Drains w s false t ∧
        (if s.wired then s.discardStale s.jitterBuffer.size else s) = t := by
      refine ⟨_, ?_, rfl⟩
      split
      next => exact discardStale_drains .refl _
      next => exact .refl
    rw [hdef]
    -- blocks that exceed the latency
    have hcomplete : s.Sound → (if t.lowLatency.isSome then t.completeBlocks else 0) ≤
        t.jitterBuffer.size := by
      intro hs
      have := (ht.sound hs).completeBlocks_le
      split <;> omega
    generalize (if t.lowLatency.isSome then t.completeBlocks else 0) = complete at hcomplete ⊢
    have hcount : s.Sound → (if t.wired then complete - t.latencyBlocks else 0) ≤
        t.jitterBuffer.size := by
      intro hs
      have := hcomplete hs
      split <;> omega
    generalize (if t.wired then complete - t.latencyBlocks else 0) = trimCount at hcount ⊢
    have htrim : Drains w s false (t.trim trimCount) := trim_drains ht hcount
    split
    next => split <;> exact htrim
    next => exact htrim.keep ⟨⟨⟨rfl, rfl, rfl, rfl, rfl⟩, rfl, rfl⟩, rfl, rfl⟩ rfl rfl

/-- A stream that has lost too much clears its buffer. -/
theorem reacquire_drains {m : Bool} (h : Drains w s m t) : Drains w s m t.reacquire := by
  unfold reacquire
  split
  next => exact h.reset ⟨⟨⟨rfl, rfl, rfl, rfl, rfl⟩, rfl, rfl⟩, rfl, rfl⟩ rfl rfl
  next => exact h

/-- With an empty buffer the position moves on, once, or the stream buffers again. -/
theorem decodeMissing_drains (h : Drains w s false t) (hempty : t.jitterBuffer.size = 0)
    (i : DecodeInput) : ∃ m, Drains w s m (t.decodeMissing i).1 := by
  unfold decodeMissing
  split
  next =>
    have hadvance : Drains w s false { t with
        jitterBuffer := t.jitterBuffer.advanceMissing
        stats := { t.stats with dropped := t.stats.dropped + 1 } } :=
      h.advance ⟨⟨⟨rfl, rfl, rfl, rfl, rfl⟩, rfl, rfl⟩, rfl, rfl⟩ hempty rfl rfl
    exact ⟨true, reacquire_drains
      (hadvance.miss ⟨⟨⟨rfl, rfl, rfl, rfl, rfl⟩, rfl, rfl⟩, rfl, rfl⟩ rfl rfl)⟩
  next => exact ⟨false, h⟩

/-- Reading a block moves nothing. -/
theorem readFront_frame (s : SourceDesc) (b : ReceivedBlock) :
    s.Holds (s.readFront b) ∧ (s.readFront b).jitterBuffer = s.jitterBuffer ∧
      (s.readFront b).lastAbsoluteSamplePosition = s.lastAbsoluteSamplePosition := by
  unfold readFront
  split
  next =>
    have hxrun : (if hasBit b.flags kAooBinMsgDataXRun then
        { s.stats with xrun := s.stats.xrun + 1 } else s.stats).resent = s.stats.resent := by
      split <;> rfl
    simp only
    split <;> exact ⟨⟨⟨rfl, rfl, rfl, rfl, rfl⟩, rfl, hxrun⟩, rfl, rfl⟩
  next => exact ⟨⟨⟨rfl, rfl, rfl, rfl, rfl⟩, rfl, rfl⟩, rfl, rfl⟩

/-- A complete block goes to the decoder with all its frames. -/
theorem readFront_complete (s : SourceDesc) {b : ReceivedBlock} (hb : b.complete = true) :
    (s.readFront b).calls = frontCalls b ++ s.calls ∧
      (s.readFront b).decoded = b :: s.decoded := by
  unfold readFront frontCalls
  rw [if_pos hb]
  simp only
  split <;> exact ⟨rfl, rfl⟩

/-- An incomplete block gives the decoder nothing. -/
theorem readFront_incomplete (s : SourceDesc) {b : ReceivedBlock} (hb : ¬ b.complete = true) :
    s.Quiet (s.readFront b) := by
  unfold readFront
  rw [if_neg hb]
  exact ⟨⟨⟨rfl, rfl, rfl, rfl, rfl⟩, rfl, rfl⟩, rfl, rfl⟩

/-- The front block is popped behind the decoder. -/
theorem Holds.popFront {s t : SourceDesc} (h : s.Holds t) : s.Holds t.popFront :=
  ⟨⟨h.streamId, h.decoder, h.lowLatency, h.latencyBlocks, h.stopped⟩, h.asked, h.resent⟩

/-- A complete block is decoded and popped. -/
theorem decodeFront_complete {i : DecodeInput} (h : Drains i.written s false t)
    (hpos : 0 < t.jitterBuffer.size) (hb : t.jitterBuffer.front.complete = true) :
    Drains i.written s false (t.decodeFront i).1 := by
  obtain ⟨hk, hj, hp⟩ := t.readFront_frame t.jitterBuffer.front
  obtain ⟨hc, hd⟩ := t.readFront_complete hb
  have hpop : (t.readFront t.jitterBuffer.front).popFront.jitterBuffer = t.jitterBuffer.pop :=
    congrArg JitterBuffer.pop hj
  unfold decodeFront
  simp only
  split
  next hw =>
    exact h.decode hk.popFront hpos hb hpop hc hd
      (Or.inl ⟨hp, Or.inl ((Bool.not_eq_true' _).mp hw)⟩)
  next =>
    split
    next hll =>
      rw [hk.lowLatency, Option.isNone_iff_eq_none] at hll
      exact h.decode hk.popFront hpos hb hpop hc hd (Or.inl ⟨hp, Or.inr hll⟩)
    next =>
      refine h.decode ⟨⟨hk.streamId, hk.decoder, hk.lowLatency, hk.latencyBlocks, hk.stopped⟩,
        hk.asked, hk.resent⟩ hpos hb hpop hc hd (Or.inr ?_)
      show max (t.readFront t.jitterBuffer.front).lastAbsoluteSamplePosition
        ((t.readFront t.jitterBuffer.front).blockEnd t.jitterBuffer.front) = _
      rw [hp, blockEnd, blockEnd, frameSize, frameSize, hk.decoder]

/-- A block that is not complete is dropped. -/
theorem decodeFront_incomplete (h : Drains w s false t) (hpos : 0 < t.jitterBuffer.size)
    {i : DecodeInput} (hb : ¬ t.jitterBuffer.front.complete = true) :
    ∃ m, Drains w s m (t.decodeFront i).1 := by
  obtain ⟨hk, hj, hp⟩ := t.readFront_frame t.jitterBuffer.front
  have hread : Drains w s false (t.readFront t.jitterBuffer.front) :=
    h.keep (t.readFront_incomplete hb) hj hp
  have hsize : 0 < (t.readFront t.jitterBuffer.front).jitterBuffer.size := by
    rw [hj]
    exact hpos
  unfold decodeFront
  simp only
  split
  next =>
    exact ⟨false, hread.pop ⟨⟨⟨rfl, rfl, rfl, rfl, rfl⟩, rfl, rfl⟩, rfl, rfl⟩ (fun _ => hsize) rfl
      (Or.inl rfl)⟩
  next =>
    split
    next =>
      exact ⟨false, hread.pop ⟨⟨⟨rfl, rfl, rfl, rfl, rfl⟩, rfl, rfl⟩, rfl, rfl⟩ (fun _ => hsize) rfl
        (Or.inl rfl)⟩
    next =>
      have hcount : SourceDesc.Quiet (t.readFront t.jitterBuffer.front)
          (t.readFront t.jitterBuffer.front).countMissing :=
        ⟨⟨⟨rfl, rfl, rfl, rfl, rfl⟩, rfl, rfl⟩, rfl, rfl⟩
      have hmiss := hread.miss hcount rfl rfl
      split
      next => exact ⟨true, reacquire_drains hmiss⟩
      next =>
        exact ⟨true, hmiss.pop ⟨⟨⟨rfl, rfl, rfl, rfl, rfl⟩, rfl, rfl⟩, rfl, rfl⟩ (fun _ => hsize) rfl
          (Or.inl rfl)⟩

/-- The end of `try_decode_block`: the front block is played or replaced. -/
theorem decode_drains {i : DecodeInput} (h : Drains i.written s false t) :
    ∃ m, Drains i.written s m (t.decode i).1 := by
  obtain ⟨u, hu, hdef⟩ : ∃ u, Drains i.written s false u ∧
      (if t.wired ∧ t.streamState = .active then t.trim (t.completeBlocks - t.latencyBlocks)
        else t) = u := by
    refine ⟨_, ?_, rfl⟩
    split
    next =>
      refine trim_drains h fun hs => ?_
      have := (h.sound hs).completeBlocks_le
      omega
    next => exact h
  unfold decode
  simp only [hdef]
  split
  next he => exact decodeMissing_drains hu (by simpa [JitterBuffer.empty] using he) i
  next hne =>
    have hpos : 0 < u.jitterBuffer.size := by
      simpa [JitterBuffer.empty, Nat.pos_iff_ne_zero] using hne
    by_cases hb : u.jitterBuffer.front.complete = true
    · exact ⟨false, decodeFront_complete hu hpos hb⟩
    · exact decodeFront_incomplete hu hpos hb

end

/-- A new latency moves nothing. -/
theorem retarget_frame (s : SourceDesc) (target : UInt32) :
    (s.retarget target).jitterBuffer = s.jitterBuffer ∧
      (s.retarget target).calls = s.calls ∧ (s.retarget target).decoded = s.decoded ∧
      (s.retarget target).lastAbsoluteSamplePosition = s.lastAbsoluteSamplePosition ∧
      (s.retarget target).streamId = s.streamId ∧ (s.retarget target).decoder = s.decoder ∧
      (s.retarget target).lowLatency.isSome = s.lowLatency.isSome ∧
      (s.retarget target).stopped = s.stopped := by
  unfold retarget
  split
  next => exact ⟨rfl, rfl, rfl, rfl, rfl, rfl, rfl, rfl⟩
  next c hc =>
    split
    next => exact ⟨rfl, rfl, rfl, rfl, rfl, rfl, by rw [hc]; rfl, rfl⟩
    next => exact ⟨rfl, rfl, rfl, rfl, rfl, rfl, rfl, rfl⟩

/-- A new target keeps the buffer sound. -/
theorem Sound.retarget {s : SourceDesc} (h : s.Sound) (target : UInt32) :
    (s.retarget target).Sound := by
  rw [Sound, (s.retarget_frame target).1]
  exact h

/-- **What `try_decode_block` can do** to the jitter buffer and to the position, once
it has looked at the latency. -/
theorem tryDecodeBlock_drains (s : SourceDesc) (i : DecodeInput) :
    ∃ m, Drains i.written (s.retarget i.target) m (s.tryDecodeBlock i).1 := by
  have hbuf : Drains i.written _ _ _ := (s.retarget i.target).buffer_drains i
  unfold tryDecodeBlock
  simp only
  split
  next =>
    split
    next t result heq =>
      rw [heq] at hbuf
      exact ⟨false, hbuf⟩
    next t heq =>
      rw [heq] at hbuf
      exact decode_drains hbuf
  next => exact decode_drains .refl

/-! ## `check_missing_blocks` -/

/-- A try does not change which frames are missing. -/
theorem windows_update (b : ReceivedBlock) (time : ℚ) (fuel : Nat) (offset : Int) :
    windows (b.update time) fuel offset = windows b fuel offset := by
  induction fuel generalizing offset with
  | zero => rfl
  | succ fuel ih =>
    rw [windows, windows, ih]
    rfl

/-- The number of tries and the time do not matter to the calls. -/
theorem blockCalls_update (b : ReceivedBlock) (time : ℚ) :
    blockCalls (b.update time) = blockCalls b := by
  unfold blockCalls
  rw [windows_update]
  rfl

/-- The requests change the numbers of tries and the times, and `has_frame` is called for
blocks of the ring. -/
theorem requestBlocks_strong {s : SourceDesc} {bs fs : List ReceivedBlock}
    (h : s.jitterBuffer.Strong bs fs) (limit : Int) {l : List (Nat × Bool)}
    (hl : ∀ p ∈ l, ∃ i < bs.length,
      p.1 = (s.jitterBuffer.tail + i) % s.jitterBuffer.capacity) (resent : Nat) :
    ∃ bs' cs, (requestBlocks limit l resent s).jitterBuffer.Strong bs' fs ∧
      bs'.length = bs.length ∧
      (∀ i (h1 : i < bs'.length) (h2 : i < bs.length),
        ∃ n t, bs'[i] = { bs[i] with numTries := n, timestamp := t }) ∧
      (requestBlocks limit l resent s).calls = cs ++ s.calls ∧
      ∀ c ∈ cs, ∃ b ∈ bs, c ∈ blockCalls b := by
  induction l generalizing s bs resent with
  | nil => exact ⟨bs, [], h, rfl, fun i _ _ => ⟨_, _, rfl⟩, rfl, nofun⟩
  | cons p l ih =>
    obtain ⟨slot, due⟩ := p
    have hrest := fun q hq => hl q (List.mem_cons_of_mem _ hq)
    rw [requestBlocks]
    simp only
    split
    next =>
      obtain ⟨i, hi, hslot⟩ := hl _ (List.mem_cons_self ..)
      simp only at hslot
      have hat := h.ring.slot_at (i := i) (by rw [List.length_append]; omega)
      rw [List.getElem_append_left hi, ← hslot] at hat
      have hmod := h.modify hi (f := fun b => b.update s.elapsedTime) rfl
      rw [← hslot] at hmod
      obtain ⟨hf1, hf2⟩ := modify_frame s.jitterBuffer slot fun b => b.update s.elapsedTime
      have hcalls : ∀ c ∈ (blockCalls bs[i]).reverse, ∃ b ∈ bs, c ∈ blockCalls b := fun c hc =>
        ⟨bs[i], List.getElem_mem hi, List.mem_reverse.mp hc⟩
      -- only the number of tries and the time of this block change
      have htries : ∀ j (h1 : j < (bs.set i (bs[i].update s.elapsedTime)).length)
          (h2 : j < bs.length), ∃ n t,
          (bs.set i (bs[i].update s.elapsedTime))[j] =
            { bs[j] with numTries := n, timestamp := t } := by
        intro j h1 h2
        rw [List.getElem_set]
        split
        next heq =>
          subst heq
          exact ⟨_, _, rfl⟩
        next => exact ⟨_, _, rfl⟩
      rw [hat]
      split
      next => exact ⟨_, _, hmod, List.length_set, htries, rfl, hcalls⟩
      next =>
        obtain ⟨bs', cs, h1, h2, h3, h4, h5⟩ := @ih
          { s with
            jitterBuffer := s.jitterBuffer.modify slot (·.update s.elapsedTime)
            asked := (slot, s.elapsedTime) :: s.otherAsked slot
            dataRequests := s.dataRequests ++ blockRequests bs[i]
            calls := (blockCalls bs[i]).reverse ++ s.calls } _ hmod
          (fun q hq => by rw [hf1, hf2, List.length_set]; exact hrest q hq) (resent + 1)
        rw [List.length_set] at h2
        refine ⟨bs', cs ++ (blockCalls bs[i]).reverse, h1, h2, fun j hj1 hj2 => ?_, ?_, ?_⟩
        · obtain ⟨n, t, hn⟩ := h3 j hj1 (by rw [List.length_set]; exact hj2)
          obtain ⟨m, u, hm⟩ := htries j (by rw [List.length_set]; exact hj2) hj2
          exact ⟨n, t, by rw [hn, hm]⟩
        · rw [h4, List.append_assoc]
        · intro c hc
          rcases List.mem_append.mp hc with hc | hc
          · obtain ⟨b, hb, hcb⟩ := h5 c hc
            rcases List.mem_or_eq_of_mem_set hb with hb | rfl
            · exact ⟨b, hb, hcb⟩
            · rw [blockCalls_update] at hcb
              exact ⟨bs[i], List.getElem_mem hi, hcb⟩
          · exact hcalls c hc
    next => exact ih h hrest resent

/-- Requests leave the blocks in their order, and only count tries. -/
theorem checkMissingBlocks_strong {s : SourceDesc} {bs fs : List ReceivedBlock}
    (h : s.jitterBuffer.Strong bs fs) (resendEnabled : Bool) (limit : Int) (due : List Bool) :
    ∃ bs' cs, (s.checkMissingBlocks resendEnabled limit due).jitterBuffer.Strong bs' fs ∧
      bs'.length = bs.length ∧
      (∀ i (h1 : i < bs'.length) (h2 : i < bs.length),
        ∃ n t, bs'[i] = { bs[i] with numTries := n, timestamp := t }) ∧
      (s.checkMissingBlocks resendEnabled limit due).calls = cs ++ s.calls ∧
      ∀ c ∈ cs, ∃ b ∈ bs, c ∈ blockCalls b := by
  have hsame : ∃ bs' cs, s.jitterBuffer.Strong bs' fs ∧ bs'.length = bs.length ∧
      (∀ i (h1 : i < bs'.length) (h2 : i < bs.length),
        ∃ n t, bs'[i] = { bs[i] with numTries := n, timestamp := t }) ∧
      s.calls = cs ++ s.calls ∧ ∀ c ∈ cs, ∃ b ∈ bs, c ∈ blockCalls b :=
    ⟨bs, [], h, rfl, fun i _ _ => ⟨_, _, rfl⟩, rfl, nofun⟩
  unfold checkMissingBlocks
  split
  next => exact hsame
  next =>
    split
    next => exact hsame
    next =>
      refine requestBlocks_strong h limit (fun p hp => ?_) 0
      have hmem := List.mem_of_mem_take (List.of_mem_zip hp).1
      rw [h.ring.indices_eq] at hmem
      obtain ⟨i, hi, heq⟩ := List.mem_map.mp hmem
      exact ⟨i, List.mem_range.mp hi, heq.symm⟩

/-- Requests only ask for frames. -/
theorem blockCalls_hasFrame {b : ReceivedBlock} {c : Call} (hc : c ∈ blockCalls b) :
    ∃ index numFrames, c = .hasFrame index numFrames := by
  unfold blockCalls at hc
  split at hc
  next =>
    obtain ⟨offset, -, hc⟩ := List.mem_flatMap.mp hc
    obtain ⟨i, -, rfl⟩ := List.mem_map.mp hc
    exact ⟨_, _, rfl⟩
  next => cases hc

end SourceDesc

/-! ## Runs -/

/-- If the call is a push, then the buffer is not full and the number is the next
one. -/
def Call.PushOk (c : Call) : Prop :=
  ∀ full lastPushed seq, c = .push full lastPushed seq →
    full = false ∧ (lastPushed = JitterBuffer.sentinel ∨ seq - lastPushed = 1)

/-- A push of the next number into a buffer with room. -/
theorem Call.GoodPush.pushOk {c : Call} (h : c.GoodPush) : c.PushOk := by
  obtain ⟨lastPushed, seq, rfl, hnext⟩ := h
  rintro full lastPushed' seq' heq
  cases heq
  exact ⟨rfl, hnext⟩

/-- Frames do not push. -/
theorem pushOk_frameCalls (d : NetPacket) (n : Int) : ∀ c ∈ frameCalls d n, c.PushOk := by
  intro c hc
  unfold frameCalls at hc
  split at hc
  next =>
    rw [List.mem_singleton.mp hc]
    nofun
  next => cases hc

/-- A packet pushes as it should. -/
theorem Adds.pushOk {s : SourceDesc} {bs fs bs' fs' : List ReceivedBlock} {d : NetPacket}
    {cs : List Call} (h : Adds s bs fs d bs' fs' cs) : ∀ c ∈ cs, c.PushOk := by
  cases h with
  | refused => exact nofun
  | duplicate =>
    intro c hc
    rw [List.mem_singleton.mp hc]
    exact nofun
  | started => exact pushOk_frameCalls d _
  | extended =>
    intro c hc
    rcases List.mem_append.mp hc with hc | hc
    · exact pushOk_frameCalls d _ c hc
    · rw [List.mem_singleton.mp hc]
      exact nofun
  | appended _ _ _ h _ =>
    obtain ⟨bs₀, ps, x, fs', cs, hold, hps, hx, hfs, hcs⟩ := h
    intro c hc
    rcases List.mem_append.mp hc with hc | hc
    · exact pushOk_frameCalls d _ c hc
    · exact (hcs c hc).pushOk
  | behind _ _ hcs =>
    intro c hc full lastPushed seq heq
    exact absurd heq (hcs c hc full lastPushed seq)

/-- The decoder does not push. -/
theorem pushOk_frontCalls (b : ReceivedBlock) : ∀ c ∈ frontCalls b, c.PushOk := by
  intro c hc
  unfold frontCalls at hc
  split at hc
  next =>
    rw [List.mem_singleton.mp hc]
    nofun
  next => cases hc

/-- Draining does not push. -/
theorem Drains.pushOk {w m : Bool} {s t : SourceDesc} (h : Drains w s m t)
    (hs : ∀ c ∈ s.calls, c.PushOk) : ∀ c ∈ t.calls, c.PushOk := by
  induction h with
  | refl => exact hs
  | keep _ hq hj hp ih => rwa [hq.calls]
  | miss _ hq hj hp ih => rwa [hq.calls]
  | reset _ hq hj hp ih => rwa [hq.calls]
  | pop _ hq hpos hj hp ih => rwa [hq.calls]
  | advance _ hq hempty hj hp ih => rwa [hq.calls]
  | decode _ hk hpos hcomplete hj hc hd hp ih =>
    rw [hc]
    intro c hmem
    rcases List.mem_append.mp hmem with hmem | hmem
    · exact pushOk_frontCalls _ c hmem
    · exact ih c hmem

/-- What holds between two actions. -/
structure SourceDesc.Inv (s : SourceDesc) : Prop where
  consistent : s.jitterBuffer.Consistent
  sound : s.decoder.isSome = true → s.Sound
  pushes : ∀ c ∈ s.calls, c.PushOk

/-- A sound buffer is consistent. -/
theorem SourceDesc.Sound.inv {s : SourceDesc} (h : s.Sound) (hp : ∀ c ∈ s.calls, c.PushOk) :
    s.Inv := by
  obtain ⟨bs, fs, hs⟩ := h
  exact ⟨hs.consistent, fun _ => ⟨bs, fs, hs⟩, hp⟩

/-- The numbers of packets are those of a stream, and a stream starts with a
number that is not negative (or with one of the two that `reset_head` takes for
something else). -/
def SinkAction.InRange : SinkAction → Prop
  | .handleStart a => 0 ≤ a.seqStart ∨ a.seqStart ≤ -2147483647
  | .addPacket d => 0 ≤ d.sequence ∧ d.sequence ≤ 2147483646
  | _ => True

namespace SourceDesc

/-- A new source has pushed nothing. -/
theorem inv_start : ({} : SourceDesc).Inv :=
  ⟨⟨rfl, Nat.le_refl _, rfl, Or.inr nofun⟩, nofun, nofun⟩

/-- The number that `reset_head` is given. -/
theorem head_range {seq : Int} (hrange : -2147483648 ≤ seq ∧ seq < 2147483648)
    (h : 0 ≤ seq ∨ seq ≤ -2147483647) :
    toInt32 (seq - 1) = JitterBuffer.sentinel ∨
      (-1 ≤ toInt32 (seq - 1) ∧ toInt32 (seq - 1) ≤ 2147483647) := by
  by_cases hmin : seq = -2147483648
  · subst hmin
    exact Or.inr (by decide)
  · rw [toInt32_of_range (by omega) (by omega)]
    unfold JitterBuffer.sentinel
    omega

/-- The latency is never below its minimum. -/
theorem UpdateArgs.minLatencyBlocks_le_latency (u : UpdateArgs)
    (c : Option AooLowLatencyStreamConfiguration) (n : Nat) :
    u.minLatencyBlocks ≤ u.latency c n :=
  Nat.le_max_right ..

/-- `update` makes a new buffer with cleared slots. -/
theorem update_sound {s : SourceDesc} (hd : s.decoder.isSome = true) (u : UpdateArgs) :
    ∃ fs, (s.update u).jitterBuffer.Strong [] fs ∧
      (s.update u).jitterBuffer.lastPopped = JitterBuffer.sentinel ∧ (s.update u).calls = s.calls ∧
      ∀ x ∈ fs, x.numFrames = 0 ∧ x.receivedFrames = 0 := by
  obtain ⟨n, hn⟩ := Option.isSome_iff_exists.mp hd
  have hlatency := fun c n => Nat.lt_of_lt_of_le u.pos (u.minLatencyBlocks_le_latency c n)
  unfold update
  rw [hn]
  obtain ⟨fs, h1, h2⟩ := JitterBuffer.strong_resize (b := s.jitterBuffer)
    (Nat.lt_of_lt_of_le (hlatency _ n) (Nat.le_max_left _ u.bufferBlocks)) u.spare
  exact ⟨fs, h1, rfl, rfl, h2⟩

/-- What the end of `handle_start` leaves alone. -/
theorem restart_frame (s : SourceDesc) (a : StartArgs) :
    (s.restart a).streamId = s.streamId ∧ (s.restart a).decoder = s.decoder ∧
      (s.restart a).decoded = s.decoded ∧
      (s.restart a).lowLatency = (s.update a.update).lowLatency := by
  have hhead : ∀ (t : SourceDesc) (b : JitterBuffer),
      ({ t with jitterBuffer := b } : SourceDesc).streamId = t.streamId ∧
        ({ t with jitterBuffer := b } : SourceDesc).decoder = t.decoder ∧
        ({ t with jitterBuffer := b } : SourceDesc).decoded = t.decoded ∧
        ({ t with jitterBuffer := b } : SourceDesc).lowLatency = t.lowLatency :=
    fun _ _ => ⟨rfl, rfl, rfl, rfl⟩
  obtain ⟨h1, h2, h3, h4⟩ := hhead (s.update a.update)
    ((s.update a.update).jitterBuffer.resetHead (toInt32 (a.seqStart - 1)))
  have hupdate : (s.update a.update).streamId = s.streamId ∧
      (s.update a.update).decoder = s.decoder ∧ (s.update a.update).decoded = s.decoded := by
    unfold update
    split
    next => exact ⟨rfl, rfl, rfl⟩
    next hd => exact ⟨rfl, hd.symm ▸ rfl, rfl⟩
  exact ⟨h1.trans hupdate.1, h2.trans hupdate.2.1, h3.trans hupdate.2.2, h4⟩

/-- A stream starts with an empty buffer. -/
theorem restart_sound {s : SourceDesc} (hd : s.decoder.isSome = true) (a : StartArgs)
    (ha : 0 ≤ a.seqStart ∨ a.seqStart ≤ -2147483647) :
    ∃ fs, (s.restart a).jitterBuffer.Strong [] fs ∧ (s.restart a).calls = s.calls ∧
      ∀ x ∈ fs, x.numFrames = 0 ∧ x.receivedFrames = 0 := by
  obtain ⟨fs, h1, h2, h3, h4⟩ := update_sound hd a.update
  have hrange := head_range a.range ha
  unfold restart
  generalize toInt32 (a.seqStart - 1) = seq at hrange ⊢
  exact ⟨fs, h1.resetHead h2 hrange, h3, h4⟩

/-- What `handle_start` does to the buffer: nothing, or it sets up a new one. -/
theorem handleStart_cases (s : SourceDesc) (a : StartArgs)
    (ha : 0 ≤ a.seqStart ∨ a.seqStart ≤ -2147483647) :
    ((s.handleStart a).jitterBuffer = s.jitterBuffer ∧ (s.handleStart a).calls = s.calls ∧
      ((s.handleStart a).decoder = s.decoder ∨ (s.handleStart a).decoder = none)) ∨
    ∃ fs, (s.handleStart a).jitterBuffer.Strong [] fs ∧ (s.handleStart a).calls = s.calls ∧
      ∀ x ∈ fs, x.numFrames = 0 ∧ x.receivedFrames = 0 := by
  unfold handleStart
  split
  next => exact Or.inl ⟨rfl, rfl, Or.inl rfl⟩
  next =>
    simp only
    split
    next n _ =>
      split
      next => exact Or.inr (@restart_sound { s with
        decoder := some n
        streamId := a.streamId
        lowLatency := a.configuration
        lastAbsoluteSamplePosition := 0
        consecutiveMissingBlocks := 0
        decoded := [] } rfl a ha)
      next => exact Or.inl ⟨rfl, rfl, Or.inr rfl⟩
    next =>
      split
      next hd => exact Or.inr (@restart_sound { s with
        streamId := a.streamId
        lowLatency := a.configuration
        lastAbsoluteSamplePosition := 0
        consecutiveMissingBlocks := 0
        decoded := [] } hd a ha)
      next => exact Or.inl ⟨rfl, rfl, Or.inl rfl⟩

/-- **One action** keeps the buffer consistent. -/
theorem inv_step {s : SourceDesc} (h : s.Inv) {a : SinkAction} (ha : a.InRange) :
    (s.step a).Inv := by
  cases a with
  | handleStart a =>
    rcases s.handleStart_cases a ha with ⟨h1, h2, h3⟩ | ⟨fs, h1, h2, -⟩
    · refine ⟨by rw [step, h1]; exact h.consistent, fun hd => ?_, by rw [step, h2]; exact h.pushes⟩
      rw [step] at hd ⊢
      rcases h3 with h3 | h3
      · rw [h3] at hd
        obtain ⟨bs, fs, hs⟩ := h.sound hd
        exact ⟨bs, fs, by rw [h1]; exact hs⟩
      · rw [h3] at hd
        cases hd
    · exact Sound.inv ⟨[], fs, h1⟩ (by rw [step, h2]; exact h.pushes)
  | update u =>
    rw [step]
    split
    next hd =>
      obtain ⟨fs, h1, -, h3, -⟩ := update_sound hd u
      exact Sound.inv ⟨[], fs, h1⟩ (by rw [h3]; exact h.pushes)
    next => exact h
  | setState streamState stopped underrun =>
    rw [step]
    split
    next hd => exact Sound.inv (h.sound hd) h.pushes
    next => exact h
  | handleUnderrun =>
    rw [step]
    split
    next hd =>
      have hdrain : Drains true s false s.handleUnderrun :=
        .reset .refl ⟨⟨⟨rfl, rfl, rfl, rfl, rfl⟩, rfl, rfl⟩, rfl, rfl⟩ rfl rfl
      exact (hdrain.sound (h.sound hd)).inv (hdrain.pushOk h.pushes)
    next => exact h
  | addPacket d =>
    rw [step]
    split
    next hd =>
      obtain ⟨bs, fs, hs⟩ := h.sound hd
      obtain ⟨bs', fs', cs, h1, h2, h3⟩ := addPacket_adds hs ha
      refine Sound.inv ⟨bs', fs', h1⟩ fun c hc => ?_
      rw [h2] at hc
      rcases List.mem_append.mp hc with hc | hc
      · exact h3.pushOk c hc
      · exact h.pushes c hc
    next => exact h
  | checkMissingBlocks resendEnabled limit due =>
    rw [step]
    split
    next hd =>
      obtain ⟨bs, fs, hs⟩ := h.sound hd
      obtain ⟨bs', cs, h1, -, -, h4, h5⟩ := checkMissingBlocks_strong hs resendEnabled limit due
      refine Sound.inv ⟨bs', fs, h1⟩ fun c hc => ?_
      rw [h4] at hc
      rcases List.mem_append.mp hc with hc | hc
      · obtain ⟨b, -, hcb⟩ := h5 c hc
        obtain ⟨index, numFrames, rfl⟩ := blockCalls_hasFrame hcb
        exact nofun
      · exact h.pushes c hc
    next => exact h
  | tryDecodeBlock i =>
    rw [step]
    split
    next hd =>
      obtain ⟨m, hdrain⟩ := s.tryDecodeBlock_drains i
      refine (hdrain.sound ((h.sound hd).retarget _)).inv (hdrain.pushOk ?_)
      rw [(s.retarget_frame i.target).2.1]
      exact h.pushes
    next => exact h

/-- The invariant holds after every run of packets, settings and calls. -/
theorem inv_run {s : SourceDesc} (h : s.Inv) {as : List SinkAction}
    (has : ∀ a ∈ as, a.InRange) : (as.foldl SourceDesc.step s).Inv := by
  induction as generalizing s with
  | nil => exact h
  | cons a as ih =>
    exact ih (inv_step h (has a (List.mem_cons_self ..)))
      fun a' ha' => has a' (List.mem_cons_of_mem _ ha')

end SourceDesc

/-- **The jitter buffer is consistent in every state** that a sink reaches while
streams start with numbers that are not negative: consecutive numbers from tail
to head, counters that fit, and no push to a full buffer or with another number
than the next. -/
theorem run_consistent (as : List SinkAction) (has : ∀ a ∈ as, a.InRange) :
    (as.foldl SourceDesc.step {}).jitterBuffer.Consistent ∧
      ∀ c ∈ (as.foldl SourceDesc.step {}).calls, c.PushOk :=
  have h := SourceDesc.inv_run SourceDesc.inv_start has
  ⟨h.consistent, h.pushes⟩

/-- A stream starts with block 0 and the first packet is of block 2: two
placeholders and the block fill a buffer for three. -/
theorem consistent_three_blocks :
    let as : List SinkAction :=
      [.handleStart ⟨7, 0, none, some 64, true, ⟨0, 2, 1, 3, [], by decide⟩, by decide⟩,
        .addPacket ⟨⟨2, 0, 0, 0, 3, 0, 1, 0, [1, 2, 3], 0, 0, 0, 0, 0, 0, 0, 0⟩, 7⟩]
    (as.foldl SourceDesc.step {}).jitterBuffer.size = 3 ∧
      (as.foldl SourceDesc.step {}).jitterBuffer.Consistent ∧
      ∀ c ∈ (as.foldl SourceDesc.step {}).calls, c.PushOk := by
  intro as
  refine ⟨by decide +kernel, run_consistent as ?_⟩
  intro a ha
  simp only [as, List.mem_cons, List.not_mem_nil, or_false] at ha
  rcases ha with rfl | rfl
  · exact Or.inl (by decide)
  · exact ⟨by decide, by decide⟩

/-- The record of calls only grows. -/
theorem mem_fillGaps {c : Call} (n : Nat) {s : SourceDesc} (seq : Int) (hc : c ∈ s.calls) :
    c ∈ (s.fillGaps seq n).calls := by
  induction n generalizing s seq with
  | zero => exact hc
  | succ n ih => exact ih (seq + 1) (List.mem_cons_of_mem _ hc)

/-- The second of two pushes finds a buffer for one block full. -/
theorem fillGaps_full {s : SourceDesc} (hcap : s.jitterBuffer.capacity = 1)
    (hsize : s.jitterBuffer.size = 0) (seq : Int) (n : Nat) :
    ∃ lastPushed seq', Call.push true lastPushed seq' ∈ (s.fillGaps seq (n + 2)).calls := by
  have hframe := SourceDesc.modify_frame (s.jitterBuffer.push seq).2 (s.jitterBuffer.push seq).1
    (·.initPlaceholder seq)
  have hfull : (s.pushBlock seq (·.initPlaceholder seq)).jitterBuffer.full = true := by
    have h1 : (s.pushBlock seq (·.initPlaceholder seq)).jitterBuffer.capacity = 1 :=
      hframe.2.trans hcap
    have h2 : (s.pushBlock seq (·.initPlaceholder seq)).jitterBuffer.size = 1 := by
      show ((s.jitterBuffer.push seq).2.modify _ _).size = 1
      unfold JitterBuffer.modify
      split <;> exact congrArg (· + 1) hsize
    exact decide_eq_true (h2.trans h1.symm)
  refine ⟨(s.pushBlock seq (·.initPlaceholder seq)).jitterBuffer.lastPushed, seq + 1,
    mem_fillGaps n (seq + 1 + 1) ?_⟩
  rw [← hfull]
  exact List.mem_cons_self ..

/-- A new block is added behind the placeholders. -/
theorem mem_addBlock {c : Call} {s : SourceDesc} {d : NetPacket}
    (hnew : ¬ d.sequence ≤ s.jitterBuffer.lastPushed)
    (hc : c ∈ (s.makeRoom d.sequence).calls) : c ∈ (s.addBlock d).1.calls := by
  unfold SourceDesc.addBlock SourceDesc.addFrame
  rw [if_neg hnew]
  simp only
  split
  next => exact List.mem_cons_of_mem _ (List.mem_cons_of_mem _ hc)
  next => exact List.mem_cons_of_mem _ hc

/-- A stream that starts with number -1 and goes on with 2147483646 overflows the
distance; placeholders are pushed until the buffer is full, and beyond. -/
theorem negative_start_overfills :
    let as : List SinkAction :=
      [.handleStart ⟨7, -1, none, some 64, true, ⟨0, 1, 1, 1, [], by decide⟩, by decide⟩,
        .addPacket ⟨⟨2147483646, 0, 0, 0, 3, 0, 1, 0, [1, 2, 3], 0, 0, 0, 0, 0, 0, 0, 0⟩, 7⟩]
    ¬ ∀ c ∈ (as.foldl SourceDesc.step {}).calls, c.PushOk := by
  intro as hall
  obtain ⟨s, hs⟩ : ∃ s, s = ({} : SourceDesc).step (as.head (by decide)) := ⟨_, rfl⟩
  obtain ⟨d, hd⟩ : ∃ d : NetPacket, d = ⟨⟨2147483646, 0, 0, 0, 3, 0, 1, 0, [1, 2, 3], 0, 0, 0, 0, 0,
    0, 0, 0⟩, 7⟩ := ⟨_, rfl⟩
  have hseq : d.sequence = 2147483646 := by rw [hd]
  have hstate : s.jitterBuffer.capacity = 1 ∧ s.jitterBuffer.size = 0 ∧
      s.jitterBuffer.lastPushed = -2 ∧ s.jitterBuffer.lastPopped = JitterBuffer.sentinel ∧
      s.decoder.isSome = true ∧ s.streamId = 7 ∧ s.lowLatency = none := by
    rw [hs]
    decide +kernel
  obtain ⟨hcap, hsize, hpushed, hpopped, hdecoder, hstream, hll⟩ := hstate
  have hroom : s.makeRoom d.sequence = s.fillGaps (-2 + 1) (2147483645 + 2) := by
    have hdist : ¬ SourceDesc.toInt32 (2147483646 - -2) > ((1 : Nat) : Int) - (0 : Nat) := by decide
    have hgaps : ((2147483646 : Int) - (-2 + 1)).toNat = 2147483645 + 2 := by decide
    unfold SourceDesc.makeRoom
    rw [hpushed, hseq, hcap, hsize]
    show (if (-2 : Int) ≠ JitterBuffer.sentinel then _ else _) = _
    rw [if_pos (by decide)]
    show (if _ > _ then _ else _) = _
    rw [if_neg hdist, hgaps]
  obtain ⟨lastPushed, seq', hmem⟩ := fillGaps_full hcap hsize (-2 + 1) 2147483645
  rw [← hroom] at hmem
  have hadd : (s.addPacket d).1 = (s.addBlock d).1 := by
    have hwrap : s.checkWrap d.sequence = some s := by
      rw [SourceDesc.checkWrap, hpopped, hseq, if_neg (by decide)]
    have hfind : s.jitterBuffer.find d.sequence = none := by
      rw [JitterBuffer.find, if_pos (show s.jitterBuffer.empty = true from decide_eq_true hsize)]
    rw [SourceDesc.addPacket, if_neg (by rw [hstream, hd]; decide), if_neg (by rw [hll]; simp), hwrap]
    simp only [hfind]
  have hrun : as.foldl SourceDesc.step {} = (s.addPacket d).1 := by
    show (({} : SourceDesc).step (as.head (by decide))).step (.addPacket _) = _
    rw [← hs, SourceDesc.step, if_pos hdecoder, hd]
  rw [hrun, hadd] at hall
  have hbad := hall _ (mem_addBlock (by rw [hseq, hpushed]; decide) hmem) true lastPushed seq' rfl
  exact absurd hbad.1 (by decide)

end Aoo.Stream
