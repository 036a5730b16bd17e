import Aoo.Stream.Messages
import Aoo.Stream.Wired

/-!
# How long a stream buffers

`try_decode_block` compares the latency with the samples that have elapsed: the smaller one of
`process_samples_`, an `int64_t`, and `stream_samples_`, a `double`. Both go through an
`int32_t` before they are compared, and so does the position at which the stream becomes
active. A low-latency stream that loses its blocks buffers again with the counters as
they are, at any age of the stream.

`Counted` is a stream with its counters; what it decides about the elapsed samples is the
`DecodeInput` of `tryDecodeBlock` (`tryDecodeBlock_desc`). The conversion of a `double` that
does not fit is undefined, so it is a parameter that is known only where it fits
(`Truncates`).

**Main result** (`buffering_ends_iff`): with everything there, the buffering ends if the
values fit.
-/

namespace Aoo.Stream

open SourceDesc

/-- The counters of a `source_desc`, and the delays of its stream. `streamSamples` is a `double`;
here it is a rational number. -/
structure SampleCounters where
  processSamples : Int
  streamSamples : ℚ
  streamStart : Int
  latencySamples : Int
  sourceCodecDelay : Int
  sinkCodecDelay : Int
  sampleOffset : Int

namespace SampleCounters

/-- The samples that have elapsed: `std::min<int32_t>`. -/
def elapsed (convert : ℚ → Int) (c : SampleCounters) : Int :=
  min (toInt32 c.processSamples) (convert (c.streamSamples + 1 / 2))

/-- Where the stream becomes active. -/
def position (c : SampleCounters) : ℚ :=
  c.streamSamples + c.sourceCodecDelay + c.sinkCodecDelay + c.sampleOffset

end SampleCounters

/-- What a call reads of the sink: the latency that the user has set, in frames of the
stream and (rounded) in samples of the sink, how far it moves the stream time, and whether
there is room in the resampler. -/
structure CallInput where
  target : UInt32
  targetSamples : Int
  advance : ℚ
  written : Bool

/-- A stream with its counters. -/
structure Counted where
  desc : SourceDesc
  counters : SampleCounters

namespace Counted

/-- The user has changed the latency. -/
def retarget (s : Counted) (i : CallInput) : Counted where
  desc := s.desc.retarget i.target
  counters :=
    match s.desc.lowLatency with
    | none => s.counters
    | some c =>
      if i.target > 0 ∧ i.target ≠ c.targetLatencyFrames then
        { s.counters with latencySamples := max 1 (toInt32 i.targetSamples) }
      else s.counters

/-- What the counters decide. -/
def decodeInput (convert : ℚ → Int) (s : Counted) (i : CallInput) : DecodeInput where
  target := i.target
  early := decide (s.counters.elapsed convert < s.counters.latencySamples)
  late := decide (s.counters.elapsed convert > s.counters.latencySamples * 4)
  written := i.written

/-- The counters behind a call. -/
def moved (s : Counted) (i : CallInput) : SampleCounters :=
  { s.counters with streamSamples := s.counters.streamSamples + i.advance }

/-- `source_desc::try_decode_block` -/
def tryDecodeBlock (convert : ℚ → Int) (s : Counted) (i : CallInput) : Counted × Bool :=
  let s := s.retarget i
  if s.desc.streamState = .buffering then
    match s.desc.buffer (s.decodeInput convert i) with
    | (desc, some result) => (⟨desc, s.moved i⟩, result)
    | (desc, none) =>
      -- buffering -> active
      let (desc, result) := desc.decode (s.decodeInput convert i)
      (⟨desc, { s.moved i with streamStart := convert s.counters.position }⟩, result)
  else
    let (desc, result) := s.desc.decode (s.decodeInput convert i)
    (⟨desc, s.moved i⟩, result)

/-- Of the stream, the call does what it does without counters. -/
theorem tryDecodeBlock_desc (convert : ℚ → Int) (s : Counted) (i : CallInput) :
    (s.tryDecodeBlock convert i).1.desc =
      (s.desc.tryDecodeBlock ((s.retarget i).decodeInput convert i)).1 := by
  unfold tryDecodeBlock SourceDesc.tryDecodeBlock
  dsimp only
  by_cases hbuffering : (s.desc.retarget i.target).streamState = .buffering
  · rw [if_pos (show (s.retarget i).desc.streamState = .buffering from hbuffering),
      if_pos (show (s.desc.retarget ((s.retarget i).decodeInput convert i).target).streamState =
        .buffering from hbuffering)]
    show (match (s.desc.retarget i.target).buffer ((s.retarget i).decodeInput convert i) with
      | (desc, some result) => (⟨desc, (s.retarget i).moved i⟩, result)
      | (desc, none) => _ : Counted × Bool).1.desc =
        (match (s.desc.retarget i.target).buffer ((s.retarget i).decodeInput convert i) with
        | (desc, some result) => (desc, result)
        | (desc, none) => desc.decode ((s.retarget i).decodeInput convert i)).1
    cases (s.desc.retarget i.target).buffer ((s.retarget i).decodeInput convert i) with
    | mk desc result =>
      cases result with
      | none => rfl
      | some result => rfl
  · rw [if_neg (show ¬ (s.retarget i).desc.streamState = .buffering from hbuffering),
      if_neg (show ¬ (s.desc.retarget ((s.retarget i).decodeInput convert i).target).streamState =
        .buffering from hbuffering)]
    rfl

/-- The stream can become active: it buffers, all samples and blocks are there, and the blocks
`bs` of the jitter buffer start with enough complete ones. -/
structure Ready (s : Counted) (bs fs : List ReceivedBlock) : Prop where
  ring : s.desc.jitterBuffer.Ring bs fs
  lowLatency : s.desc.lowLatency.isSome = true
  buffering : s.desc.streamState = .buffering
  stopped : s.desc.stopped = false
  latencyBlocks : 0 < s.desc.latencyBlocks
  complete : s.desc.latencyBlocks ≤ countComplete bs
  latencySamples : 0 ≤ s.counters.latencySamples
  processSamples : s.counters.latencySamples ≤ s.counters.processSamples
  streamSamples : (s.counters.latencySamples : ℚ) ≤ s.counters.streamSamples

/-- What the call should do then: the stream becomes active at its position. -/
structure Ends (convert : ℚ → Int) (s : Counted) (i : CallInput) : Prop where
  active : (s.tryDecodeBlock convert i).1.desc.streamState = .active
  streamStart : (s.tryDecodeBlock convert i).1.counters.streamStart = ⌊s.counters.position⌋
  nonneg : 0 ≤ s.counters.position

/-- The counters and the position can be taken as numbers of 32 bits. -/
structure Fits (c : SampleCounters) : Prop where
  processSamples : c.latencySamples ≤ toInt32 c.processSamples
  streamSamples : c.streamSamples + 1 / 2 < 2147483648
  nonneg : 0 ≤ c.position
  position : c.position < 2147483648

end Counted

/-- A conversion of `double` to `int32_t`: what fits is cut off. -/
def Truncates (convert : ℚ → Int) : Prop :=
  ∀ x : ℚ, -2147483649 < x → x < 2147483648 → convert x = trunc x

theorem trunc_of_nonneg {x : ℚ} (h : 0 ≤ x) : trunc x = ⌊x⌋ := if_pos h

/-- Some processors give `INT32_MIN` for everything else. -/
def convertIndefinite (x : ℚ) : Int :=
  if -2147483649 < x ∧ x < 2147483648 then trunc x else -2147483648

theorem convertIndefinite_truncates : Truncates convertIndefinite :=
  fun _ hlow hhigh => if_pos ⟨hlow, hhigh⟩

theorem convertIndefinite_of_ge {x : ℚ} (h : 2147483648 ≤ x) :
    convertIndefinite x = -2147483648 := if_neg fun hc => absurd hc.2 (not_lt.mpr h)

/-! ## The call -/

namespace SourceDesc

variable {s : SourceDesc} {bs fs : List ReceivedBlock}

/-- As long as it is too early, the stream buffers. -/
theorem buffer_early (hs : s.stopped = false) {i : DecodeInput} (hearly : i.early = true) :
    ∃ v r, s.SameStream v ∧ s.buffer i = (v, some r) := by
  have hstale : s.SameStream
      (if s.wired = true then s.discardStale s.jitterBuffer.size else s) := by
    split
    · exact s.sameStream_discardStale _
    · exact .refl s
  unfold buffer
  rw [if_neg (by rw [hs]; exact nofun)]
  dsimp only
  revert hstale
  generalize (if s.wired = true then s.discardStale s.jitterBuffer.size else s) = u
  intro hstale
  generalize (if u.lowLatency.isSome = true then u.completeBlocks else 0) = complete
  generalize (if u.wired = true then complete - u.latencyBlocks else 0) = n
  rw [hearly, Bool.true_or, Bool.true_or, if_pos rfl]
  have hsame := hstale.trans (sameStream_trim n u)
  split
  · exact ⟨_, _, hsame, rfl⟩
  · exact ⟨_, _, hsame, rfl⟩

theorem discardStale_of_complete (h : s.jitterBuffer.front.complete = true) :
    ∀ fuel, s.discardStale fuel = s := by
  intro fuel
  cases fuel with
  | zero => rfl
  | succ fuel => rw [discardStale, h, Bool.or_true, if_pos rfl]

theorem countComplete_pos {n : Nat} (hn : 0 < n) (h : n ≤ countComplete bs) :
    ∃ x bs', bs = x :: bs' ∧ x.complete = true := by
  cases bs with
  | nil => exact absurd h (Nat.not_le.mpr hn)
  | cons x bs =>
    rw [countComplete] at h
    split at h
    next hx => exact ⟨x, bs, rfl, hx⟩
    next => exact absurd h (Nat.not_le.mpr hn)

/-- With enough complete blocks in front, and not too early, the stream becomes active with
a complete block in front, and none to trim. -/
theorem buffer_ready (hring : s.jitterBuffer.Ring bs fs) (hlow : s.lowLatency.isSome = true)
    (hs : s.stopped = false) (hpos : 0 < s.latencyBlocks)
    (hcomplete : s.latencyBlocks ≤ countComplete bs) {i : DecodeInput} (hlate : i.early = false) :
    ∃ v k fs', s.buffer i = ({ v with streamState := .active }, none) ∧ s.SameStream v ∧
      v.jitterBuffer.Ring (bs.drop k) fs' ∧ s.latencyBlocks ≤ countComplete (bs.drop k) ∧
      (s.wired = true → countComplete (bs.drop k) = s.latencyBlocks) := by
  obtain ⟨x, bs', rfl, hx⟩ := countComplete_pos hpos hcomplete
  have hfront : s.jitterBuffer.front.complete = true := by
    rw [hring.front_eq]
    exact hx
  have hle := countComplete_le (x :: bs')
  have hblocks := completeBlocks_eq hring
  have hkeep : (if s.wired = true then s.discardStale s.jitterBuffer.size else s) = s := by
    rw [discardStale_of_complete hfront, ite_self]
  have htrim : ∃ n, (if s.wired = true then s.completeBlocks - s.latencyBlocks else 0) = n ∧
      n ≤ countComplete (x :: bs') - s.latencyBlocks ∧
      (s.wired = true → n = countComplete (x :: bs') - s.latencyBlocks) := by
    refine ⟨_, rfl, ?_, ?_⟩
    · split
      · omega
      · exact Nat.zero_le _
    · intro hw
      rw [if_pos hw, hblocks]
  obtain ⟨n, hn, hnle, hwired⟩ := htrim
  obtain ⟨fs', hdrop⟩ := ring_trim n hring (by omega)
  have hsame := sameStream_trim n s
  have hcount := countComplete_drop n (x :: bs') (by omega)
  have hsize := hdrop.size
  rw [List.length_drop] at hsize
  refine ⟨s.trim n, n, fs', ?_, hsame, hdrop, by omega, ?_⟩
  · unfold buffer
    rw [if_neg (by rw [hs]; exact nofun)]
    dsimp only
    rw [hkeep, if_pos hlow, hn, if_neg]
    rw [hlate, Bool.false_or, hsame.lowLatency, hlow, Bool.true_and, Bool.or_eq_true,
      decide_eq_true_iff, decide_eq_true_iff, hsame.latencyBlocks, hblocks]
    omega
  · intro hw
    have := hwired hw
    omega

/-- An active stream with a complete block in front stays active. -/
theorem decode_active (hring : s.jitterBuffer.Ring bs fs) (ha : s.streamState = .active)
    (hpos : 0 < s.latencyBlocks) (hcomplete : s.latencyBlocks ≤ countComplete bs)
    (hdepth : s.wired = true → countComplete bs = s.latencyBlocks) (i : DecodeInput) :
    (s.decode i).1.streamState = .active := by
  obtain ⟨x, bs', rfl, hx⟩ := countComplete_pos hpos hcomplete
  have hkeep : s.trimmed = s := by
    rw [trimmed]
    split
    next hw =>
      rw [trimBacklog, completeBlocks_eq hring, hdepth hw.1, Nat.sub_self]
      rfl
    next => rfl
  have hsize := hring.size
  rw [List.length_cons] at hsize
  have hread := s.readFront_sameStream s.jitterBuffer.front
  rw [decode_eq, hkeep, if_neg (by rw [JitterBuffer.empty, decide_eq_true_iff]; omega),
    decodeFront]
  dsimp only
  split
  · exact hread.streamState.trans ha
  · split
    · exact hread.streamState.trans ha
    · rw [if_pos (by rw [hring.front_eq]; exact hx)]
      exact hread.streamState.trans ha

end SourceDesc

namespace Counted

variable {s : Counted} {i : CallInput} {bs fs : List ReceivedBlock}

/-- Too early: the stream goes on buffering. -/
theorem Ready.early (h : (s.retarget i).Ready bs fs) (convert : ℚ → Int)
    (helapsed : (s.retarget i).counters.elapsed convert < (s.retarget i).counters.latencySamples) :
    (s.tryDecodeBlock convert i).1.desc.streamState = .buffering := by
  obtain ⟨v, r, hv, hbuffer⟩ := buffer_early h.stopped
    (i := (s.retarget i).decodeInput convert i) (decide_eq_true helapsed)
  unfold tryDecodeBlock
  dsimp only
  rw [if_pos h.buffering, hbuffer]
  exact hv.streamState.trans h.buffering

/-- Late enough: the stream becomes active. -/
theorem Ready.late (h : (s.retarget i).Ready bs fs) (convert : ℚ → Int)
    (helapsed : (s.retarget i).counters.latencySamples ≤ (s.retarget i).counters.elapsed convert) :
    (s.tryDecodeBlock convert i).1.desc.streamState = .active ∧
      (s.tryDecodeBlock convert i).1.counters.streamStart =
        convert (s.retarget i).counters.position := by
  obtain ⟨v, k, fs', hbuffer, hv, hring, hcomplete, hdepth⟩ := buffer_ready h.ring h.lowLatency
    h.stopped h.latencyBlocks h.complete (i := (s.retarget i).decodeInput convert i)
    (decide_eq_false (Int.not_lt.mpr helapsed))
  unfold tryDecodeBlock
  dsimp only
  rw [if_pos h.buffering, hbuffer]
  refine ⟨?_, rfl⟩
  exact decode_active (s := { v with streamState := .active }) hring rfl
    (hv.latencyBlocks.symm ▸ h.latencyBlocks) (hv.latencyBlocks.symm ▸ hcomplete)
    (fun hw => (hdepth (hv.wired.symm.trans hw)).trans hv.latencyBlocks.symm) _

theorem retarget_position (s : Counted) (i : CallInput) :
    (s.retarget i).counters.position = s.counters.position := by
  unfold retarget
  dsimp only
  split
  · rfl
  · split
    · simp only [SampleCounters.position]
    · rfl

/-- **The buffering ends, at the position of the stream**, whatever the conversion does with
values that do not fit, exactly if the counters and the position fit. -/
theorem buffering_ends_iff (h : (s.retarget i).Ready bs fs) :
    (∀ convert, Truncates convert → Ends convert s i) ↔ Fits (s.retarget i).counters := by
  have hnonneg : (0 : ℚ) ≤ (s.retarget i).counters.streamSamples :=
    le_trans (Int.cast_nonneg h.latencySamples) h.streamSamples
  constructor
  · intro hall
    -- a conversion that gives `INT32_MIN` shows which values do not fit
    have hends := hall convertIndefinite convertIndefinite_truncates
    have helapsed : (s.retarget i).counters.latencySamples ≤
        (s.retarget i).counters.elapsed convertIndefinite := by
      by_contra hlt
      have hstays := h.early _ (Int.not_le.mp hlt)
      rw [hends.active] at hstays
      cases hstays
    obtain ⟨hprocess, hstream⟩ := le_min_iff.mp helapsed
    have hstart := (h.late _ helapsed).2
    rw [hends.streamStart, ← retarget_position s i] at hstart
    have hposition : 0 ≤ (s.retarget i).counters.position := by
      rw [retarget_position]
      exact hends.nonneg
    refine ⟨hprocess, ?_, hposition, ?_⟩
    · by_contra hge
      have := h.latencySamples
      rw [convertIndefinite_of_ge (not_lt.mp hge)] at hstream
      omega
    · by_contra hge
      have := Int.floor_nonneg.mpr hposition
      rw [convertIndefinite_of_ge (not_lt.mp hge)] at hstart
      omega
  · intro hfits convert hconvert
    have hround : convert ((s.retarget i).counters.streamSamples + 1 / 2) =
        ⌊(s.retarget i).counters.streamSamples + 1 / 2⌋ := by
      rw [hconvert _ (by linarith) hfits.streamSamples, trunc_of_nonneg (by linarith)]
    have hstream : (s.retarget i).counters.latencySamples ≤
        ⌊(s.retarget i).counters.streamSamples + 1 / 2⌋ :=
      Int.le_floor.mpr (le_trans h.streamSamples (by linarith))
    obtain ⟨hactive, hstart⟩ := h.late convert
      (le_min hfits.processSamples (hround ▸ hstream))
    have hnonneg := hfits.nonneg
    rw [hconvert _ (by linarith) hfits.position, trunc_of_nonneg hnonneg] at hstart
    rw [retarget_position] at hstart hnonneg
    exact ⟨hactive, hstart, hnonneg⟩

/-- A stream with one complete block, and a depth of one block. -/
def oneBlock : SourceDesc where
  decoder := some 64
  lowLatency := some ⟨1, 2, 1, 1, 64, 1024, 1, 48000, 64, 7, [0]⟩
  latencyBlocks := 1
  streamState := .buffering
  jitterBuffer := { data := [{ sequence := 5 }, {}], size := 1, head := 1, lastPushed := 5 }

/-- The stream buffers again after `n` samples, with a latency of 64 samples. -/
def aged (n : Nat) : Counted where
  desc := oneBlock
  counters := ⟨n, n, -1, 64, 0, 0, 0⟩

theorem ready_aged {n : Nat} (hn : 64 ≤ n) :
    ((aged n).retarget ⟨0, 0, 64, true⟩).Ready [{ sequence := 5 }] [{}] where
  ring := by
    show oneBlock.jitterBuffer.Ring _ _
    exact ⟨⟨by decide, by decide, by decide⟩, by decide, by decide, by decide⟩
  lowLatency := rfl
  buffering := rfl
  stopped := rfl
  latencyBlocks := Nat.one_pos
  complete := by
    show oneBlock.latencyBlocks ≤ _
    decide
  latencySamples := by
    show (0 : Int) ≤ 64
    decide
  processSamples := Int.ofNat_le.mpr hn
  streamSamples := by
    show ((64 : Int) : ℚ) ≤ (n : ℚ)
    exact_mod_cast hn

/-- A young stream becomes active. -/
theorem ends_aged : Ends convertIndefinite (aged 64) ⟨0, 0, 64, true⟩ := by
  refine (buffering_ends_iff (ready_aged (Nat.le_refl 64))).mpr ⟨?_, ?_, ?_, ?_⟩
    convertIndefinite convertIndefinite_truncates
  · decide
  · show ((64 : Nat) : ℚ) + 1 / 2 < 2147483648
    norm_num
  · show (0 : ℚ) ≤ ((64 : Nat) : ℚ) + ((0 : Int) : ℚ) + ((0 : Int) : ℚ) + ((0 : Int) : ℚ)
    norm_num
  · show ((64 : Nat) : ℚ) + ((0 : Int) : ℚ) + ((0 : Int) : ℚ) + ((0 : Int) : ℚ) < 2147483648
    norm_num

/-- Behind `2 ^ 31` samples a stream does not become active again. -/
theorem buffers_for_ever :
    ((aged 2147483648).retarget ⟨0, 0, 64, true⟩).Ready [{ sequence := 5 }] [{}] ∧
      ∀ convert, ¬ Ends convert (aged 2147483648) ⟨0, 0, 64, true⟩ := by
  have hready := ready_aged (n := 2147483648) (by omega)
  refine ⟨hready, ?_⟩
  intro convert hends
  -- the counter of the sink alone is too small, whatever the conversion of the other gives
  have hprocess : toInt32 ((2147483648 : Nat) : Int) = -2147483648 := by decide
  have hstays := hready.early convert
    (lt_of_le_of_lt (min_le_left _ _) (by
      show toInt32 ((2147483648 : Nat) : Int) < 64
      rw [hprocess]
      decide))
  rw [hends.active] at hstays
  cases hstays

end Counted

end Aoo.Stream
