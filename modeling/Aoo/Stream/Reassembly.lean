import Aoo.Stream.Missing
import Aoo.Stream.Playout

/-!
# Reassembly of blocks

The first packet of a block says how many frames the block has and how large it
is; the others only bring their frame. Nothing that comes from the network is
checked against it. `ReceivedBlock.LaidOut` is what the frame storage and the
decoder rely on: the block has frames of certain sizes, which sum up to its total
size, and those that are there have their size. It holds as long as every packet
is a frame of such a block (`SourceDesc.Admissible`), and then no frame index
leaves the storage and a complete block fills its buffer exactly
(`reached_safe`).
-/

namespace Aoo.Stream

open Lib

/-! ## Blocks -/

/-- The frames of the block have the given sizes, and `f` gives those that are
there. -/
structure ReceivedBlock.LaidOut (b : ReceivedBlock) (sizes : List Nat)
    (f : Nat → Option (List UInt8)) : Prop where
  holds : b.Holds sizes.length f
  bound : sizes.length ≤ 32752
  fits : ∀ i (hi : i < sizes.length) frame, f i = some frame → sizes[i] = frame.length
  total : b.totalSize = sizes.sum
  message : 0 ≤ b.messageSize ∧ b.messageSize ≤ b.totalSize

/-- A placeholder, or a block whose frames fit together. -/
def ReceivedBlock.Sane (b : ReceivedBlock) : Prop := b.Unknown ∨ ∃ sizes f, b.LaidOut sizes f

/-- `copy_frames` reads frames that are there, and as many bytes as the buffer is
long; the stream message lies inside. -/
structure CopyOk (frames : List (Option (List UInt8))) (totalSize messageSize : Int) : Prop where
  present : ∀ f ∈ frames, f.isSome = true
  exact : (((frames.map fun f => (f.getD []).length).sum : Nat) : Int) = totalSize
  message : 0 ≤ messageSize ∧ messageSize ≤ totalSize

/-- What should hold of every block in the jitter buffer. -/
structure ReceivedBlock.Safe (b : ReceivedBlock) : Prop where
  received : b.receivedFrames ≤ b.numFrames
  complete : b.complete = true → CopyOk b.frames.copyFrames b.totalSize b.messageSize

/-- Frame indices are inside the block, and `copy_frames` fills its buffer. -/
def Call.FramesOk : Call → Prop
  | .push _ _ _ => True
  | .hasFrame index numFrames => 0 ≤ index ∧ index < numFrames
  | .addFrame index numFrames => 0 ≤ index ∧ index < numFrames
  | .copyFrames frames totalSize messageSize => CopyOk frames totalSize messageSize

/-- A slot without block. -/
def ReceivedBlock.Vacant (b : ReceivedBlock) : Prop := b.numFrames = 0 ∧ b.receivedFrames = 0

namespace ReceivedBlock

variable {b : ReceivedBlock} {sizes : List Nat} {f : Nat → Option (List UInt8)}

theorem vacant_clear (b : ReceivedBlock) : b.clear.Vacant := by
  refine ⟨?_, rfl⟩
  unfold clear numFrames DataFrameStorage.clear
  simp only
  split <;> rfl

theorem Vacant.initPlaceholder (h : b.Vacant) (seq : Int) : (b.initPlaceholder seq).Unknown :=
  ⟨rfl, h.1⟩

/-- **A complete block fills its buffer.** -/
theorem LaidOut.copyOk (h : b.LaidOut sizes f) (hc : b.complete = true) :
    CopyOk b.frames.copyFrames b.totalSize b.messageSize := by
  have hcount : storedCount sizes.length f = sizes.length := by
    have := of_decide_eq_true hc
    rw [h.holds.received, h.holds.numFrames_eq] at this
    omega
  have hall : ∀ i < sizes.length, (f i).isSome = true := fun i hi => storedCount_eq hcount hi
  rw [h.holds.stores.copyFrames_eq hall]
  refine ⟨fun x hx => ?_, ?_, h.message⟩
  · obtain ⟨i, hi, rfl⟩ := List.mem_map.mp hx
    exact hall i (List.mem_range.mp hi)
  · have hsizes : ((List.range sizes.length).map f).map (fun x => (x.getD []).length) = sizes := by
      refine List.ext_getElem (by simp) fun i h1 h2 => ?_
      obtain ⟨frame, hframe⟩ := Option.isSome_iff_exists.mp (hall i h2)
      rw [List.getElem_map, List.getElem_map, List.getElem_range, hframe, Option.getD_some]
      exact (h.fits i h2 frame hframe).symm
    rw [hsizes, h.total]

theorem Sane.safe (h : b.Sane) : b.Safe := by
  rcases h with h | ⟨sizes, f, h⟩
  · refine ⟨by rw [h.received, h.size]; decide, fun hc => ?_⟩
    have := of_decide_eq_true hc
    rw [h.received, h.size] at this
    exact absurd this (by decide)
  · refine ⟨?_, h.copyOk⟩
    have := storedCount_le sizes.length f
    rw [h.holds.received, h.holds.numFrames_eq]
    omega

/-- A block is changed in other respects. -/
theorem Sane.congr {b' : ReceivedBlock} (h : b.Sane) (hframes : b'.frames = b.frames)
    (hreceived : b'.receivedFrames = b.receivedFrames) (htotal : b'.totalSize = b.totalSize)
    (hmessage : b'.messageSize = b.messageSize) : b'.Sane := by
  rcases h with h | ⟨sizes, f, h⟩
  · exact Or.inl ⟨hreceived.trans h.received, (congrArg (·.size) hframes).trans h.size⟩
  · refine Or.inr ⟨sizes, f, ⟨?_, hreceived.trans h.holds.received⟩, h.bound, h.fits,
      htotal.trans h.total, ?_⟩
    · rw [hframes]
      exact h.holds.stores
    · rw [htotal, hmessage]
      exact h.message

end ReceivedBlock

/-! ## Packets -/

/-- The packet has a frame of its size, if it has data. -/
def NetPacket.Brings (d : NetPacket) (sizes : List Nat) : Prop :=
  d.data.length > 0 → ∃ i, ∃ hi : i < sizes.length, d.frameIndex = i ∧ sizes[i] = d.data.length

/-- The packet describes a block with frames of the given sizes. -/
structure NetPacket.Describes (d : NetPacket) (sizes : List Nat) : Prop where
  count : d.numFrames = sizes.length
  bound : sizes.length ≤ 32752
  total : d.totalSize = sizes.sum
  message : 0 ≤ d.msgSize ∧ d.msgSize ≤ d.totalSize
  brings : d.Brings sizes

/-- The packet has a frame index of the block, and a missing frame has the right
size. -/
def NetPacket.Extends (d : NetPacket) (b : ReceivedBlock) : Prop :=
  (0 ≤ d.frameIndex ∧ d.frameIndex < b.numFrames) ∧
    (b.hasFrame d.frameIndex = false → ∃ sizes f, b.LaidOut sizes f ∧ d.Brings sizes)

/-- The packet belongs to the block that it is for: it describes a new block, or
extends the one in the buffer. The search for that block stays inside the vector. -/
structure SourceDesc.Admissible (s : SourceDesc) (d : NetPacket) : Prop where
  sequence : 0 ≤ d.sequence ∧ d.sequence ≤ 2147483646
  search : ¬ (JitterBuffer.searchThreshold ≤ s.jitterBuffer.size ∧
    s.jitterBuffer.head ≤ s.jitterBuffer.tail ∧ s.jitterBuffer.spare ≠ [])
  fresh : (∀ b ∈ s.jitterBuffer.blocks, b.sequence = d.sequence → b.placeholder = true) →
    ∃ sizes, d.Describes sizes
  known : ∀ b ∈ s.jitterBuffer.blocks, b.sequence = d.sequence → b.placeholder = false →
    b.isEmpty = false → d.Extends b

namespace ReceivedBlock

variable {b : ReceivedBlock} {sizes : List Nat} {f : Nat → Option (List UInt8)} {d : NetPacket}

/-- A missing frame of the right size keeps the sizes. -/
theorem LaidOut.addFrame (h : b.LaidOut sizes f) {i : Nat} (hi : i < sizes.length)
    (hnone : f i = none) {frame : List UInt8} (hsize : sizes[i] = frame.length) :
    (b.addFrame i frame).LaidOut sizes (Function.update f i (some frame)) := by
  refine ⟨h.holds.addFrame hi hnone frame, h.bound, fun j hj x hx => ?_, ?_, ?_⟩
  · by_cases hji : j = i
    · subst hji
      rw [Function.update_self, Option.some.injEq] at hx
      rw [hsize, hx]
    · rw [Function.update_of_ne hji] at hx
      exact h.fits j hj x hx
  · cases b
    exact h.total
  · cases b
    exact h.message

theorem LaidOut.take (h : b.LaidOut sizes f) (hd : d.Brings sizes)
    (hnone : ∀ i < sizes.length, d.frameIndex = i → f i = none) : (b.take d).Sane := by
  unfold ReceivedBlock.take
  split
  next hpos =>
    obtain ⟨i, hi, hindex, hsize⟩ := hd hpos
    rw [hindex]
    exact Or.inr ⟨sizes, _, h.addFrame hi (hnone i hi hindex) hsize⟩
  next => exact Or.inr ⟨sizes, f, h⟩

/-- The first packet of a block. -/
theorem laidOut_init (b : ReceivedBlock) (h : d.Describes sizes) :
    (b.init d.toDataPacket).LaidOut sizes fun _ => none :=
  have hbound := h.bound
  ⟨b.holds_init (by omega) h.count, h.bound, nofun, h.total, h.message⟩

end ReceivedBlock

/-- The call of `add_frame` is inside the block. -/
theorem framesOk_frameCalls {d : NetPacket} {sizes : List Nat} (h : d.Brings sizes) {n : Int}
    (hn : n = sizes.length) : ∀ c ∈ frameCalls d n, c.FramesOk := by
  intro c hc
  unfold frameCalls at hc
  split at hc
  next hpos =>
    obtain ⟨i, hi, hindex, -⟩ := h hpos
    rw [List.mem_singleton.mp hc]
    show 0 ≤ d.frameIndex ∧ d.frameIndex < n
    omega
  next => cases hc

/-! ## The jitter buffer -/

/-- All blocks of the ring are sane, and its free slots are vacant. -/
structure Tidy (bs fs : List ReceivedBlock) : Prop where
  sane : ∀ b ∈ bs, b.Sane
  vacant : ∀ x ∈ fs, x.Vacant

theorem tidy_clear (data : List ReceivedBlock) : Tidy [] (data.map (·.clear)) := by
  refine ⟨List.forall_mem_nil _, fun x hx => ?_⟩
  obtain ⟨y, -, rfl⟩ := List.mem_map.mp hx
  exact y.vacant_clear

theorem Tidy.fresh {bs fs : List ReceivedBlock} (h : Tidy bs fs) {x : ReceivedBlock}
    (hx : Fresh fs x) : x.Vacant := by
  rcases hx with hx | ⟨y, rfl⟩
  · exact h.vacant x hx
  · exact y.vacant_clear

theorem Tidy.set {bs fs : List ReceivedBlock} (h : Tidy bs fs) (i : Nat) {b : ReceivedBlock}
    (hb : b.Sane) : Tidy (bs.set i b) fs := by
  refine ⟨fun x hx => ?_, h.vacant⟩
  rcases List.mem_or_eq_of_mem_set hx with hx | rfl
  · exact h.sane x hx
  · exact hb

/-- A new block, with placeholders in front of it. -/
theorem Appends.tidy {bs fs bs' fs' : List ReceivedBlock} {d : NetPacket} {cs : List Call}
    (h : Appends bs fs d bs' fs' cs) (ht : Tidy bs fs) {sizes : List Nat}
    (hd : d.Describes sizes) : Tidy bs' fs' ∧ ∀ c ∈ cs, c.FramesOk := by
  obtain ⟨bs₀, ps, x, fs', cs, hold, hps, hx, hfs, hcs⟩ := h
  refine ⟨⟨fun b hb => ?_, fun y hy => ht.fresh (hfs y hy)⟩, fun c hc => ?_⟩
  · rcases List.mem_append.mp hb with hb | hb
    · rcases List.mem_append.mp hb with hb | hb
      · rcases hold with rfl | rfl
        · exact ht.sane b hb
        · cases hb
      · obtain ⟨y, seq, hy, rfl⟩ := hps b hb
        exact Or.inl ((ht.fresh hy).initPlaceholder seq)
    · rw [List.mem_singleton.mp hb]
      exact (x.laidOut_init hd).take hd.brings fun _ _ _ => rfl
  · rcases List.mem_append.mp hc with hc | hc
    · exact framesOk_frameCalls hd.brings hd.count c hc
    · obtain ⟨lastPushed, seq, rfl, -⟩ := hcs c hc
      trivial

/-- **A packet keeps the buffer tidy** if it is admissible. -/
theorem Adds.tidy {s : SourceDesc} {bs fs bs' fs' : List ReceivedBlock} {d : NetPacket}
    {cs : List Call} (h : Adds s bs fs d bs' fs' cs) (hs : s.jitterBuffer.Strong bs fs)
    (ht : Tidy bs fs) (hd : s.Admissible d) : Tidy bs' fs' ∧ ∀ c ∈ cs, c.FramesOk := by
  have hblocks := hs.ring.blocks_eq
  have hknown : ∀ i (hi : i < bs.length), bs[i].sequence = d.sequence →
      bs[i].placeholder = false → bs[i].isEmpty = false → d.Extends bs[i] := fun i hi =>
    hd.known bs[i] (by rw [hblocks]; exact List.getElem_mem hi)
  cases h with
  | refused => exact ⟨ht, nofun⟩
  | duplicate i hi hseq hempty hplaceholder =>
    refine ⟨ht, fun c hc => ?_⟩
    rw [List.mem_singleton.mp hc]
    exact (hknown i hi hseq hplaceholder hempty).1
  | started i hi hseq hplaceholder resent =>
    obtain ⟨sizes, hdesc⟩ := hd.fresh fun b hb hb' => by
      -- no other block has the number of the packet
      rw [hblocks] at hb
      obtain ⟨j, hj, rfl⟩ := List.getElem_of_mem hb
      rw [hs.sequence j hj, ← hseq, hs.sequence i hi] at hb'
      obtain rfl : j = i := by omega
      exact hplaceholder
    have hinit := bs[i].laidOut_init hdesc
    refine ⟨ht.set i ?_, framesOk_frameCalls hdesc.brings hdesc.count⟩
    exact ReceivedBlock.LaidOut.take (f := fun _ => none)
      ⟨⟨hinit.holds.stores, hinit.holds.received⟩, hinit.bound, hinit.fits, hinit.total,
        hinit.message⟩ hdesc.brings fun _ _ _ => rfl
  | extended i hi hseq hempty hplaceholder hnew resent =>
    obtain ⟨hindex, hmissing⟩ := hknown i hi hseq hplaceholder hempty
    obtain ⟨sizes, f, hlaid, hbrings⟩ := hmissing hnew
    refine ⟨ht.set i ?_, fun c hc => ?_⟩
    · refine ReceivedBlock.LaidOut.take (f := f)
        ⟨⟨hlaid.holds.stores, hlaid.holds.received⟩, hlaid.bound, hlaid.fits, hlaid.total,
          hlaid.message⟩ hbrings fun j hj heq => ?_
      have hhas := hlaid.holds.stores.hasFrame_eq hj
      rw [← heq] at hhas
      exact Option.isNone_iff_eq_none.mp (Option.isSome_eq_false_iff.mp (hhas.symm.trans hnew))
    · rcases List.mem_append.mp hc with hc | hc
      · exact framesOk_frameCalls hbrings hlaid.holds.numFrames_eq c hc
      · rw [List.mem_singleton.mp hc]
        exact hindex
  | appended _ _ _ h hnone =>
    obtain ⟨sizes, hdesc⟩ := hd.fresh fun b hb hb' => by
      rw [hblocks] at hb
      exact absurd hb' (hnone b hb)
    exact h.tidy ht hdesc
  | behind _ hread _ => exact absurd hread hd.search

/-- The buffer of a running stream. -/
def SourceDesc.Clean (s : SourceDesc) : Prop :=
  ∃ bs fs, s.jitterBuffer.Strong bs fs ∧ Tidy bs fs

theorem SourceDesc.Clean.sound {s : SourceDesc} (h : s.Clean) : s.Sound := by
  obtain ⟨bs, fs, hs, -⟩ := h
  exact ⟨bs, fs, hs⟩

/-- The first block leaves. -/
theorem Tidy.pop {x : ReceivedBlock} {bs fs : List ReceivedBlock} (h : Tidy (x :: bs) fs) :
    Tidy bs (fs ++ [x.clear]) := by
  refine ⟨fun b hb => h.sane b (List.mem_cons_of_mem _ hb), fun y hy => ?_⟩
  rcases List.mem_append.mp hy with hy | hy
  · exact h.vacant y hy
  · rw [List.mem_singleton.mp hy]
    exact x.vacant_clear

/-- Draining keeps the buffer tidy, and copies complete blocks only. -/
theorem Drains.clean {w m : Bool} {s t : SourceDesc} (h : Drains w s m t) (hs : s.Clean)
    (hcalls : ∀ c ∈ s.calls, c.FramesOk) : t.Clean ∧ ∀ c ∈ t.calls, c.FramesOk := by
  induction h with
  | refl => exact ⟨hs, hcalls⟩
  | keep _ hq hj hp ih =>
    obtain ⟨⟨bs, fs, ht, htidy⟩, hok⟩ := ih
    exact ⟨⟨bs, fs, by rw [hj]; exact ht, htidy⟩, by rw [hq.calls]; exact hok⟩
  | miss _ hq hj hp ih =>
    obtain ⟨⟨bs, fs, ht, htidy⟩, hok⟩ := ih
    exact ⟨⟨bs, fs, by rw [hj]; exact ht, htidy⟩, by rw [hq.calls]; exact hok⟩
  | reset _ hq hj hp ih =>
    obtain ⟨⟨bs, fs, ht, htidy⟩, hok⟩ := ih
    exact ⟨⟨_, _, by rw [hj]; exact JitterBuffer.strong_reset ht.ring.capacity_pos, tidy_clear _⟩,
      by rw [hq.calls]; exact hok⟩
  | pop _ hq hpos hj hp ih =>
    obtain ⟨⟨bs, fs, ht, htidy⟩, hok⟩ := ih
    obtain ⟨x, bs, rfl⟩ := ht.exists_cons (hpos hs.sound)
    exact ⟨⟨_, _, by rw [hj]; exact ht.pop, htidy.pop⟩, by rw [hq.calls]; exact hok⟩
  | advance _ hq hempty hj hp ih =>
    obtain ⟨⟨bs, fs, ht, htidy⟩, hok⟩ := ih
    obtain rfl := ht.eq_nil hempty
    exact ⟨⟨_, _, by rw [hj]; exact ht.advanceMissing, htidy⟩, by rw [hq.calls]; exact hok⟩
  | decode _ hk hpos hcomplete hj hc hd hp ih =>
    obtain ⟨⟨bs, fs, ht, htidy⟩, hok⟩ := ih
    obtain ⟨x, bs, rfl⟩ := ht.exists_cons hpos
    refine ⟨⟨_, _, by rw [hj]; exact ht.pop, htidy.pop⟩, ?_⟩
    rw [hc, ht.ring.front_eq]
    rw [ht.ring.front_eq] at hcomplete
    intro c hmem
    rcases List.mem_append.mp hmem with hmem | hmem
    · unfold frontCalls at hmem
      split at hmem
      next =>
        rw [List.mem_singleton.mp hmem]
        exact (htidy.sane x (List.mem_cons_self ..)).safe.complete hcomplete
      next => cases hmem
    · exact hok c hmem

/-- The frames that `check_missing_blocks` looks at are frames of the block. -/
theorem ReceivedBlock.Sane.framesOk {b : ReceivedBlock} (h : b.Sane) {c : Call}
    (hc : c ∈ SourceDesc.blockCalls b) : c.FramesOk := by
  rcases h with h | ⟨sizes, f, h⟩
  · unfold SourceDesc.blockCalls at hc
    rw [h.received, if_neg (by decide)] at hc
    cases hc
  · obtain ⟨i, hi, rfl⟩ := SourceDesc.blockCalls_index h.holds.numFrames_eq h.bound hc
    show 0 ≤ (i : Int) ∧ (i : Int) < _
    omega

theorem SourceDesc.checkMissingBlocks_clean {s : SourceDesc} (h : s.Clean)
    (hcalls : ∀ c ∈ s.calls, c.FramesOk) (resendEnabled : Bool) (limit : Int) (due : List Bool) :
    (s.checkMissingBlocks resendEnabled limit due).Clean ∧
      ∀ c ∈ (s.checkMissingBlocks resendEnabled limit due).calls, c.FramesOk := by
  obtain ⟨bs, fs, hs, ht⟩ := h
  obtain ⟨bs', cs, h1, h2, h3, h4, h5⟩ := checkMissingBlocks_strong hs resendEnabled limit due
  refine ⟨⟨bs', fs, h1, fun b hb => ?_, ht.vacant⟩, fun c hc => ?_⟩
  · obtain ⟨i, hi, rfl⟩ := List.getElem_of_mem hb
    obtain ⟨n, t, hn⟩ := h3 i hi (by omega)
    rw [hn]
    exact (ht.sane bs[i] (List.getElem_mem _)).congr rfl rfl rfl rfl
  · rw [h4] at hc
    rcases List.mem_append.mp hc with hc | hc
    · obtain ⟨b, hb, hcb⟩ := h5 c hc
      exact (ht.sane b hb).framesOk hcb
    · exact hcalls c hc

/-! ## Runs -/

/-- What is assumed of an action: streams start in range, and packets of the
stream are admissible. -/
def SinkAction.Meets (s : SourceDesc) : SinkAction → Prop
  | .handleStart a => 0 ≤ a.seqStart ∨ a.seqStart ≤ -2147483647
  | .addPacket d => d.streamId = s.streamId → s.Admissible d
  | _ => True

/-- The states of a sink whose actions meet the assumption. -/
inductive SourceDesc.Reached : SourceDesc → Prop
  | start : Reached {}
  | step {s : SourceDesc} (h : Reached s) (a : SinkAction) (ha : a.Meets s) : Reached (s.step a)

/-- What holds between two actions. Without decoder the buffer is that of an
earlier stream. -/
structure SourceDesc.Intact (s : SourceDesc) : Prop where
  safe : ∀ b ∈ s.jitterBuffer.blocks, b.Safe
  clean : s.decoder.isSome = true → s.Clean
  calls : ∀ c ∈ s.calls, c.FramesOk

namespace SourceDesc

theorem Clean.intact {s : SourceDesc} (h : s.Clean ∧ ∀ c ∈ s.calls, c.FramesOk) : s.Intact := by
  obtain ⟨⟨bs, fs, hs, ht⟩, hcalls⟩ := h
  refine ⟨fun b hb => ?_, fun _ => ⟨bs, fs, hs, ht⟩, hcalls⟩
  rw [hs.ring.blocks_eq] at hb
  exact (ht.sane b hb).safe

theorem intact_start : ({} : SourceDesc).Intact :=
  ⟨List.forall_mem_nil _, nofun, List.forall_mem_nil _⟩

/-- A packet of another stream is refused. -/
theorem addPacket_other {s : SourceDesc} {d : NetPacket} (h : d.streamId ≠ s.streamId) :
    (s.addPacket d).1 = s := by
  rw [addPacket, if_pos h]

theorem addPacket_clean {s : SourceDesc} (h : s.Clean) (hcalls : ∀ c ∈ s.calls, c.FramesOk)
    {d : NetPacket} (hd : s.Admissible d) :
    (s.addPacket d).1.Clean ∧ ∀ c ∈ (s.addPacket d).1.calls, c.FramesOk := by
  obtain ⟨bs, fs, hs, ht⟩ := h
  obtain ⟨bs', fs', cs, h1, h2, h3⟩ := addPacket_adds hs hd.sequence
  obtain ⟨h4, h5⟩ := h3.tidy hs ht hd
  refine ⟨⟨bs', fs', h1, h4⟩, fun c hc => ?_⟩
  rw [h2] at hc
  rcases List.mem_append.mp hc with hc | hc
  · exact h5 c hc
  · exact hcalls c hc

/-- **One action** keeps the blocks intact. -/
theorem intact_step {s : SourceDesc} (h : s.Intact) {a : SinkAction} (ha : a.Meets s) :
    (s.step a).Intact := by
  cases a with
  | handleStart a =>
    rcases s.handleStart_cases a ha with ⟨h1, h2, h3⟩ | ⟨fs, h1, h2, h3⟩
    · refine ⟨by rw [step, h1]; exact h.safe, fun hd => ?_, by rw [step, h2]; exact h.calls⟩
      rw [step] at hd ⊢
      rcases h3 with h3 | h3
      · rw [h3] at hd
        obtain ⟨bs, fs, hs, ht⟩ := h.clean hd
        exact ⟨bs, fs, by rw [h1]; exact hs, ht⟩
      · rw [h3] at hd
        cases hd
    · exact Clean.intact ⟨⟨[], fs, h1, List.forall_mem_nil _, h3⟩, by rw [step, h2]; exact h.calls⟩
  | update u =>
    rw [step]
    split
    next hd =>
      obtain ⟨fs, h1, -, h3, h4⟩ := update_sound hd u
      exact Clean.intact ⟨⟨[], fs, h1, List.forall_mem_nil _, h4⟩, by rw [h3]; exact h.calls⟩
    next => exact h
  | setState streamState stopped underrun =>
    rw [step]
    split
    next hd => exact Clean.intact ⟨h.clean hd, h.calls⟩
    next => exact h
  | handleUnderrun =>
    rw [step]
    split
    next hd =>
      have hdrain : Drains true s false s.handleUnderrun :=
        .reset .refl ⟨⟨⟨rfl, rfl, rfl, rfl, rfl⟩, rfl, rfl⟩, rfl, rfl⟩ rfl rfl
      exact Clean.intact (hdrain.clean (h.clean hd) h.calls)
    next => exact h
  | addPacket d =>
    rw [step]
    split
    next hd =>
      by_cases hstream : d.streamId = s.streamId
      · exact Clean.intact (addPacket_clean (h.clean hd) h.calls (ha hstream))
      · rw [addPacket_other hstream]
        exact h
    next => exact h
  | checkMissingBlocks resendEnabled limit due =>
    rw [step]
    split
    next hd => exact Clean.intact (checkMissingBlocks_clean (h.clean hd) h.calls ..)
    next => exact h
  | tryDecodeBlock i =>
    rw [step]
    split
    next hd =>
      obtain ⟨m, hdrain⟩ := s.tryDecodeBlock_drains i
      obtain ⟨hj, hc, -⟩ := s.retarget_frame i.target
      exact Clean.intact (hdrain.clean (by rw [Clean, hj]; exact h.clean hd)
        (by rw [hc]; exact h.calls))
    next => exact h

theorem intact_reached {s : SourceDesc} (h : s.Reached) : s.Intact := by
  induction h with
  | start => exact intact_start
  | step _ a ha ih => exact intact_step ih ha

end SourceDesc

/-- **Reassembly is safe** in every state that a sink reaches with admissible
packets: frame indices stay inside their blocks, no block has more frames than it
should, and the frames of a complete block fill the buffer of the decoder. -/
theorem reached_safe {s : SourceDesc} (h : s.Reached) :
    (∀ b ∈ s.jitterBuffer.blocks, b.Safe) ∧ ∀ c ∈ s.calls, c.FramesOk :=
  have hi := SourceDesc.intact_reached h
  ⟨hi.safe, hi.calls⟩

/-- Two frames of a block arrive one after the other; then the block is decoded. -/
theorem safe_two_frames :
    let start : SourceDesc.StartArgs :=
      ⟨7, 0, none, some 64, true, ⟨0, 1, 1, 1, [], by decide⟩, by decide⟩
    let d₀ : NetPacket := ⟨⟨0, 0, 0, 0, 5, 0, 2, 0, [1, 2, 3], 2, 0, 0, 0, 0, 0, 0, 0⟩, 7⟩
    let d₁ : NetPacket := ⟨⟨0, 0, 0, 0, 5, 0, 2, 1, [4, 5], 2, 0, 0, 0, 0, 0, 0, 0⟩, 7⟩
    let as : List SinkAction :=
      [.handleStart start, .addPacket d₀, .addPacket d₁, .setState .active false false,
        .tryDecodeBlock ⟨0, false, false, true⟩]
    Call.copyFrames [some [1, 2, 3], some [4, 5]] 5 0 ∈ (as.foldl SourceDesc.step {}).calls ∧
      (∀ b ∈ (as.foldl SourceDesc.step {}).jitterBuffer.blocks, b.Safe) ∧
      ∀ c ∈ (as.foldl SourceDesc.step {}).calls, c.FramesOk := by
  intro start d₀ d₁ as
  refine ⟨by decide +kernel, reached_safe ?_⟩
  have h1 : (({} : SourceDesc).step (.handleStart start)).Reached :=
    .step .start _ (Or.inl (by decide))
  have h2 : ((({} : SourceDesc).step (.handleStart start)).step (.addPacket d₀)).Reached := by
    refine .step h1 _ fun _ => ⟨by decide, fun h => absurd h.1 (by decide +kernel),
      fun _ => ⟨[3, 2], ⟨rfl, by decide, rfl, by decide, fun _ => ⟨0, by decide, rfl, rfl⟩⟩⟩,
      fun b hb => absurd hb ?_⟩
    rw [show (({} : SourceDesc).step (.handleStart start)).jitterBuffer.blocks = [] by
      decide +kernel]
    exact List.not_mem_nil
  -- the first frame is there
  obtain ⟨x, hx⟩ : ∃ x : ReceivedBlock, x = ⟨0, 5, 0, 2, 0, 0, 0, 0, 0, 0, 1, 0, false, 0,
    ⟨2, [some [1, 2, 3], none, none, none, none, none], [], 0⟩⟩ := ⟨_, rfl⟩
  have hblocks : ((({} : SourceDesc).step (.handleStart start)).step
      (.addPacket d₀)).jitterBuffer.blocks = [x] := by
    rw [hx]
    decide +kernel
  have hlaid : x.LaidOut [3, 2] fun i => if i = 0 then some [1, 2, 3] else none := by
    rw [hx]
    refine ⟨⟨⟨rfl, by decide, fun _ => ⟨rfl, by decide⟩, fun h => absurd h (by decide)⟩, by decide⟩,
      by decide, fun i hi frame hf => ?_, rfl, by decide⟩
    split at hf
    next hzero =>
      subst hzero
      cases hf
      rfl
    next => cases hf
  have h3 : (((({} : SourceDesc).step (.handleStart start)).step (.addPacket d₀)).step
      (.addPacket d₁)).Reached := by
    refine .step h2 _ fun _ => ⟨by decide, fun h => absurd h.1 (by decide +kernel), fun h => ?_,
      fun b hb _ _ _ => ?_⟩
    · have hp := h x (by rw [hblocks]; exact List.mem_singleton_self x) (by rw [hx])
      rw [hx] at hp
      exact absurd hp (by decide)
    · rw [hblocks] at hb
      rw [List.mem_singleton.mp hb]
      exact ⟨by rw [hx]; decide, fun _ => ⟨[3, 2], _, hlaid, fun _ => ⟨1, by decide, rfl, rfl⟩⟩⟩
  simp only [as, List.foldl_cons, List.foldl_nil]
  exact .step (.step h3 (.setState .active false false) trivial) (.tryDecodeBlock _) trivial

/-- A binary packet with frame index 5 of a block with two frames is parsed, and
`add_frame` is called with that index. -/
theorem frame_index_outside_block :
    let d : NetPacket := ⟨⟨0, 0, 0, 0, 5, 0, 2, 5, [1, 2, 3], 2, 0, 0, 0, 0, 0, 0, 0⟩, 7⟩
    let as : List SinkAction :=
      [.handleStart ⟨7, 0, none, some 64, true, ⟨0, 1, 1, 1, [], by decide⟩, by decide⟩, .addPacket d]
    parseDataBin [0, 0, 0, 7, 0, 0, 0, 0, 0, 2, 0, 3, 0, 0, 0, 5, 0, 2, 0, 5, 1, 2, 3] = some d ∧
      ¬ ∀ c ∈ (as.foldl SourceDesc.step {}).calls, c.FramesOk := by
  intro d as
  refine ⟨by decide +kernel, fun h => ?_⟩
  have hcall : Call.addFrame 5 2 ∈ (as.foldl SourceDesc.step {}).calls := by decide +kernel
  exact absurd (h _ hcall).2 (by decide)

end Aoo.Stream
